import Mathlib.Data.List.Chain
import Nominal.Proofs.Flattening

/-! All interfaces of a declaration, as a plain definition has them. They are the listing of the open definition, each
    reference where it comes up first. Whatever is listed stands at the end of a chain of steps up that leaves no symbol
    twice, and each such chain whose last step is to an interface ends in something listed. -/

namespace Nominal

namespace Table

variable {t : Table} {path : List Symbol} {r i : TypeRef} {found l : List TypeRef}

/-! ### Each reference once -/

theorem addNew_cons_of_mem (h : i ∈ found) : addNew found (i :: l) = addNew found l := by
  simp [addNew, h]

theorem addNew_cons_of_not_mem (h : i ∉ found) : addNew found (i :: l) = addNew (found ++ [i]) l := by
  simp [addNew, h]

theorem addNew_eq (found l : List TypeRef) : addNew found l = found ++ (l.filter (· ∉ found)).eraseDups := by
  induction l generalizing found with
  | nil => simp [addNew]
  | cons i l ih =>
    by_cases hi : i ∈ found
    · rw [addNew_cons_of_mem hi, ih, List.filter_cons_of_neg (by simpa using hi)]
    · rw [addNew_cons_of_not_mem hi, ih, List.filter_cons_of_pos (by simpa using hi), List.eraseDups_cons,
        List.filter_filter, List.append_assoc, List.singleton_append]
      congr 4
      funext j
      rw [Bool.eq_iff_iff]
      simp [and_comm]

theorem addNew_nil (l : List TypeRef) : addNew [] l = l.eraseDups := by
  simp [addNew_eq]

theorem nodup_addNew (h : found.Nodup) (l : List TypeRef) : (addNew found l).Nodup := by
  induction l generalizing found with
  | nil => exact h
  | cons i l ih =>
    by_cases hi : i ∈ found
    · rw [addNew_cons_of_mem hi]
      exact ih h
    · rw [addNew_cons_of_not_mem hi]
      refine ih (List.nodup_append.mpr ⟨h, List.nodup_singleton i, ?_⟩)
      rintro j hj _ hmem rfl
      exact hi (List.mem_singleton.mp hmem ▸ hj)

/-! ### Chains -/

/-- The references of `rest` are steps up from `r`, one after the other, and the last one implements `i` directly. No
    symbol is left twice on the way, nor is one that is on `path`. -/
structure Chain (t : Table) (path : List Symbol) (r : TypeRef) (rest : List TypeRef) (i : TypeRef) : Prop where
  steps : (r :: rest).IsChain t.Step
  distinct : ((r :: rest).map TypeRef.symbol).Nodup
  off : ∀ q ∈ r :: rest, q.symbol ∉ path
  last : t.Declares ((r :: rest).getLast (List.cons_ne_nil r rest)) i

theorem Chain.single (hp : r.symbol ∉ path) (h : t.Declares r i) : t.Chain path r [] i where
  steps := .singleton r
  distinct := by simp
  off := by simpa using hp
  last := h

theorem chain_cons_iff {r' : TypeRef} {rest : List TypeRef} :
    t.Chain path r (r' :: rest) i ↔ r.symbol ∉ path ∧ t.Step r r' ∧ t.Chain (r.symbol :: path) r' rest i := by
  constructor
  · rintro ⟨hsteps, hdistinct, hoff, hlast⟩
    obtain ⟨hstep, hsteps⟩ := List.isChain_cons_cons.mp hsteps
    obtain ⟨hfresh, hdistinct⟩ := List.nodup_cons.mp hdistinct
    refine ⟨hoff r List.mem_cons_self, hstep, hsteps, hdistinct, fun q hq hmem => ?_, hlast⟩
    rcases List.mem_cons.mp hmem with heq | hmem
    · exact hfresh (heq ▸ List.mem_map_of_mem hq)
    · exact hoff q (List.mem_cons_of_mem r hq) hmem
  · rintro ⟨hp, hstep, hsteps, hdistinct, hoff, hlast⟩
    refine ⟨List.isChain_cons_cons.mpr ⟨hstep, hsteps⟩, List.nodup_cons.mpr ⟨?_, hdistinct⟩, fun q hq => ?_, hlast⟩
    · intro hmem
      obtain ⟨q, hq, heq⟩ := List.mem_map.mp hmem
      exact hoff q hq (heq ▸ List.mem_cons_self)
    · rcases List.mem_cons.mp hq with rfl | hq
      · exact hp
      · exact fun hmem => hoff q hq (List.mem_cons_of_mem _ hmem)

theorem mem_listing_iff : i ∈ t.listing path r ↔ ∃ rest, t.Chain path r rest i := by
  induction path, r using path_induction (t := t) with
  | step path r ih =>
    constructor
    · intro h
      obtain ⟨hp, hi | ⟨r', hstep, h⟩⟩ := mem_listing_cases h
      · exact ⟨[], .single hp hi⟩
      · obtain ⟨rest, hrest⟩ := (ih hp r' hstep).mp h
        exact ⟨r' :: rest, chain_cons_iff.mpr ⟨hp, hstep, hrest⟩⟩
    · rintro ⟨_ | ⟨r', rest⟩, hchain⟩
      · exact mem_listing_of_declares (hchain.off r List.mem_cons_self) hchain.last
      · obtain ⟨hp, hstep, hrest⟩ := chain_cons_iff.mp hchain
        exact mem_listing_of_step hp hstep ((ih hp r' hstep).mpr ⟨rest, hrest⟩)

/-! ### Interfaces -/

theorem interfaces_of_size {s : Symbol} (hsize : t.size < Profile.ceiling) : t.interfaces s = t.flattened s := by
  rw [interfaces, interfacesWithin_of_size hsize (Nat.le_refl _)]

/-- All interfaces of a declared symbol are those that the depth-first listing of its open definition comes to, in this
    order and each once: the references at the end of chains of steps up, the last one to an interface, that start from
    declared symbols and from none twice. -/
theorem interfaces_eq_listing (t : Table) (hsize : t.size < Profile.ceiling) (s : Symbol) (d : Declaration)
    (hd : t.get? s = some d) :
    t.interfaces s = (t.listing [] (.opened s d.arity)).eraseDups ∧ (t.interfaces s).Nodup ∧
      ∀ i, i ∈ t.interfaces s ↔ ∃ rest : List TypeRef, (.opened s d.arity :: rest).IsChain t.Step ∧
        ((.opened s d.arity :: rest).map TypeRef.symbol).Nodup ∧
        t.Declares ((.opened s d.arity :: rest).getLast (List.cons_ne_nil _ rest)) i := by
  have hall : t.interfaces s = addNew [] (t.listing [] (.opened s d.arity)) := by
    rw [interfaces_of_size hsize, flattened, hd]
  refine ⟨hall.trans (addNew_nil _), hall ▸ nodup_addNew List.nodup_nil _, fun i => ?_⟩
  rw [hall, mem_addNew, mem_listing_iff]
  simp only [List.not_mem_nil, false_or]
  constructor
  · rintro ⟨rest, hchain⟩
    exact ⟨rest, hchain.steps, hchain.distinct, hchain.last⟩
  · rintro ⟨rest, hsteps, hdistinct, hlast⟩
    exact ⟨rest, hsteps, hdistinct, fun _ _ => List.not_mem_nil, hlast⟩

/-- The first declaration implements an instance of the second one, and so does its base. The second one implements a
    deeper instance of itself and something that is not declared. -/
def tangle : Table where
  names := .common
  declarations := #[
    { kind := .cls, name := ⟨⟨0⟩, ⟨1⟩⟩, params := [], base? := some ⟨⟨3⟩, []⟩, interfaces := [⟨⟨2⟩, [.type ⟨1⟩ []]⟩] },
    { kind := .interface, name := ⟨⟨0⟩, ⟨2⟩⟩, params := [⟨3⟩],
      interfaces := [⟨⟨2⟩, [.type ⟨2⟩ [.param ⟨⟨2⟩, 0⟩]]⟩, ⟨⟨9⟩, []⟩] },
    { kind := .cls, name := ⟨⟨0⟩, ⟨4⟩⟩, params := [], interfaces := [⟨⟨2⟩, [.type ⟨1⟩ []]⟩] }]

theorem listing_tangle {a : TypeArg} (hp : ⟨2⟩ ∉ path) :
    tangle.listing path ⟨⟨2⟩, [a]⟩ = [⟨⟨2⟩, [.type ⟨2⟩ [a]]⟩, ⟨⟨9⟩, []⟩] := by
  obtain ⟨d, hd, hinterfaces, hbase⟩ : ∃ d, tangle.get? ⟨2⟩ = some d ∧
      d.interfaces = [⟨⟨2⟩, [.type ⟨2⟩ [.param ⟨⟨2⟩, 0⟩]]⟩, ⟨⟨9⟩, []⟩] ∧ d.base? = none := ⟨_, rfl, rfl, rfl⟩
  have hcut : tangle.listing (⟨2⟩ :: path) ⟨⟨2⟩, [.type ⟨2⟩ [a]]⟩ = [] := listing_of_mem List.mem_cons_self
  have hunknown : tangle.listing (⟨2⟩ :: path) ⟨⟨9⟩, []⟩ = [] := listing_of_unknown rfl
  rw [listing_eq (r := ⟨⟨2⟩, [a]⟩) hd hp, hinterfaces, hbase]
  simp [TypeRef.instantiate, TypeRef.substitute, TypeArg.substituteAll, TypeArg.substitute, hcut, hunknown]

/-- The walk through the second declaration is cut where it comes back to it, and what comes up again by way of the base
    is not listed again. -/
theorem interfaces_tangle :
    tangle.interfaces ⟨1⟩ = [⟨⟨2⟩, [.type ⟨1⟩ []]⟩, ⟨⟨2⟩, [.type ⟨2⟩ [.type ⟨1⟩ []]]⟩, ⟨⟨9⟩, []⟩] := by
  obtain ⟨d, hd, harity, hinterfaces, hbase⟩ : ∃ d, tangle.get? ⟨1⟩ = some d ∧ d.arity = 0 ∧
      d.interfaces = [⟨⟨2⟩, [.type ⟨1⟩ []]⟩] ∧ d.base? = some ⟨⟨3⟩, []⟩ := ⟨_, rfl, rfl, rfl, rfl⟩
  obtain ⟨d', hd', hinterfaces', hbase'⟩ : ∃ d, tangle.get? ⟨3⟩ = some d ∧
      d.interfaces = [⟨⟨2⟩, [.type ⟨1⟩ []]⟩] ∧ d.base? = none := ⟨_, rfl, rfl, rfl⟩
  have hthird : tangle.listing [⟨1⟩] ⟨⟨3⟩, []⟩ =
      [⟨⟨2⟩, [.type ⟨1⟩ []]⟩, ⟨⟨2⟩, [.type ⟨2⟩ [.type ⟨1⟩ []]]⟩, ⟨⟨9⟩, []⟩] := by
    rw [listing_eq (r := ⟨⟨3⟩, []⟩) hd' (by decide), hinterfaces', hbase']
    simp [TypeRef.instantiate, TypeRef.substitute, TypeArg.substituteAll, TypeArg.substitute, listing_tangle]
  have hall : tangle.listing [] (.opened ⟨1⟩ 0) =
      [⟨⟨2⟩, [.type ⟨1⟩ []]⟩, ⟨⟨2⟩, [.type ⟨2⟩ [.type ⟨1⟩ []]]⟩, ⟨⟨9⟩, []⟩,
        ⟨⟨2⟩, [.type ⟨1⟩ []]⟩, ⟨⟨2⟩, [.type ⟨2⟩ [.type ⟨1⟩ []]]⟩, ⟨⟨9⟩, []⟩] := by
    rw [listing_eq (r := .opened ⟨1⟩ 0) hd List.not_mem_nil, hinterfaces, hbase]
    simp [TypeRef.instantiate, TypeRef.substitute, TypeArg.substituteAll, TypeArg.substitute, TypeRef.opened,
      listing_tangle, hthird]
  rw [(interfaces_eq_listing tangle (by decide) ⟨1⟩ d hd).1, harity, hall]
  decide

end Table

end Nominal
