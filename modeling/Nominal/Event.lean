import Nominal.Failure
import Nominal.Profile
import Nominal.Table.Basic

/-! What there is to tell about the work on declarations and queries. Events are collected in the order in which they
    happen and put into words only when somebody wants to read them. -/

namespace Nominal

/-- How important an event is, the most important first. -/
inductive Level where
  | error
  | warn
  | info
  | debug
  | trace
  deriving DecidableEq, Repr

namespace Level

/-- The rank of a level; greater ranks are chattier. -/
def rank : Level → Nat
  | error => 1
  | warn => 2
  | info => 3
  | debug => 4
  | trace => 5

/-- The name of a level in a log. -/
def text : Level → String
  | error => "ERROR"
  | warn => "WARN"
  | info => "INFO"
  | debug => "DEBUG"
  | trace => "TRACE"

/-- Whether a log that shows `limit` shows `l` too. -/
def isWithin (l limit : Level) : Bool := l.rank ≤ limit.rank

end Level

/-- The rule by which two references were found to match. -/
inductive Rule where
  | bothOpen
  | closedOpen
  | arguments
  | openSupertype (via : TypeRef)
  | supertype (via : TypeRef)
  deriving DecidableEq, Repr

/-- Something that happened. -/
inductive Event where
  | tableCreated
  | registered (symbol : Symbol) (kind : Kind) (arity : Nat)
  | declared (symbol : Symbol) (name : String) (arity : Nat)
  | universeLoaded (types : Nat)
  | unifyPlanned (profile : Profile)
  | unifyStarted (a b : TypeRef)
  | ruleApplied (rule : Rule) (a b : TypeRef)
  | cycleCut (a b : TypeRef)
  | unifyEnded (matched instantiated : Bool) (steps : Nat)
  | unifyAborted (failure : Failure) (steps : Nat)
  | failedClosed (a b : TypeRef) (failure : Failure)
  | ancestorFound (ancestor : TypeRef)
  | supertypesListed (type : TypeRef) (interfaces ancestors : Nat)
  deriving DecidableEq, Repr

/-- The name of a kind in a log. -/
def Kind.logText : Kind → String
  | .cls => "Class"
  | .interface => "Interface"
  | .struct => "Struct"
  | .primitive => "Primitive"

namespace Event

/-- How important the event is. -/
def level : Event → Level
  | tableCreated | registered .. | unifyStarted .. | ruleApplied .. | cycleCut .. | ancestorFound .. => .trace
  | declared .. | unifyPlanned .. | unifyEnded .. | unifyAborted .. | supertypesListed .. => .debug
  | universeLoaded .. => .info
  | failedClosed .. => .warn

/-- The part of the program that tells of the event. -/
def target : Event → String
  | tableCreated | registered .. => "tkit_solver::symbols"
  | declared .. | universeLoaded .. => "tkit_cli::universe"
  | unifyPlanned .. => "tkit_cli::driver"
  | ancestorFound .. | supertypesListed .. => "tkit_solver::supertypes"
  | unifyStarted .. | ruleApplied .. | cycleCut .. | unifyEnded .. | unifyAborted .. | failedClosed .. =>
    "tkit_solver::unify"

/-- Whether the event only opens a span, within which others happen, and is no message of its own. -/
def isSpan : Event → Bool
  | unifyStarted .. => true
  | _ => false

/-- Whether the event is the last one within a span. -/
def endsSpan : Event → Bool
  | unifyEnded .. | unifyAborted .. => true
  | _ => false

/-- What happened, without the particulars. -/
def heading : Event → String
  | tableCreated => "SymbolTable::new"
  | registered .. => "SymbolTable::register"
  | declared .. => "declared"
  | universeLoaded .. => "universe loaded"
  | unifyPlanned .. => "unify"
  | unifyStarted .. => "unify"
  | ruleApplied .bothOpen .. => "case 1: open/open"
  | ruleApplied .closedOpen .. => "case 2: closed/open"
  | ruleApplied .arguments .. => "case 3: arguments"
  | ruleApplied (.openSupertype _) .. => "case 4: open supertype"
  | ruleApplied (.supertype _) .. => "case 5: supertype"
  | cycleCut .. => "cycle, no match on this path"
  | unifyEnded .. => "unify"
  | unifyAborted .. => "unify aborted"
  | failedClosed .. => "unification failed closed"
  | ancestorFound .. => "supertypes_of: base"
  | supertypesListed .. => "supertypes_of"

/-- The supertype that a rule went through. -/
def viaFields : Rule → List (String × String)
  | .bothOpen | .closedOpen | .arguments => []
  | .openSupertype via | .supertype via => [("via", via.text)]

/-- The particulars, each with its name. -/
def fields : Event → List (String × String)
  | tableCreated => []
  | registered s kind arity => [("symbol", toString s.id), ("kind", kind.logText), ("arity", toString arity)]
  | declared s name arity => [("symbol", s.text), ("name", name), ("arity", toString arity)]
  | universeLoaded n => [("types", toString n)]
  | unifyPlanned p => [("profile", p.text)]
  | unifyStarted a b | cycleCut a b => [("a", a.text), ("b", b.text)]
  | ruleApplied rule a b => [("a", a.text), ("b", b.text)] ++ viaFields rule
  | unifyEnded m i steps => [("matched", toString m), ("instantiated", toString i), ("steps", toString steps)]
  | unifyAborted f steps => [("err", f.message), ("steps", toString steps)]
  | failedClosed a b f => [("a", a.text), ("b", b.text), ("err", f.message)]
  | ancestorFound t => [("ancestor", t.text)]
  | supertypesListed t i n => [("ty", t.text), ("interfaces", toString i), ("ancestors", toString n)]

/-- Names of particulars that a filter may ask for though they are not written: the heading of a message, and the number
    that a table has among all tables. -/
def unwritten : Event → List String
  | unifyStarted .. => []
  | tableCreated | registered .. => ["message", "instance_id"]
  | _ => ["message"]

/-- The names of everything that comes with the event. -/
def fieldNames (e : Event) : List String := e.fields.map Prod.fst ++ e.unwritten

/-- The message with its particulars. -/
def message (e : Event) : String :=
  (if e.isSpan then "span " else "") ++ e.heading ++
    String.join (e.fields.map fun (name, text) => " " ++ name ++ "=" ++ text)

/-- The line of a log that tells of the event. -/
def line (e : Event) : String := e.level.text ++ " " ++ e.target ++ ": " ++ e.message

end Event

/-- A result together with what happened on the way to it. -/
structure Logged (α : Type) where
  value : α
  events : List Event

/-- Tells that a symbol was registered. -/
def Table.registration (t : Table) (s : Symbol) : List Event :=
  match t.get? s with
  | some d => [.registered s d.kind d.arity]
  | none => []

end Nominal
