import Mathlib.Data.List.Nodup
import Nominal.Proofs.Search

/-! The books of a guard. Whatever calls are made, in whatever order, and whether or not they keep to the rules, the
    guard's state is what can be read off the log of the calls and of what came of each. -/

namespace Nominal

namespace Guard

/-- A call of a guard. -/
inductive Call (κ : Type) where
  | enter (k : κ)
  | leave (k : κ)
  | reset

/-- What came of a call. -/
inductive Deed (κ : Type) where
  | tried (k : κ) (e : Entry)
  | left (k : κ)
  | cleared
  | misused (m : Misuse)

/-- What came of a call that may break the rules. -/
def Deed.ofExcept {α κ : Type} (done : Deed κ) : Except Misuse α → Deed κ
  | .ok _ => done
  | .error m => .misused m

namespace Deed

variable {κ : Type}

def isTry : Deed κ → Bool
  | tried _ _ => true
  | _ => false

def isCleared : Deed κ → Bool
  | cleared => true
  | _ => false

/-- A limit was met. -/
def exceeds : Deed κ → Bool
  | tried _ e => e.isExceeded
  | _ => false

/-- The call was turned down, by the guard or by its rules. -/
def isRefused : Deed κ → Bool
  | tried _ e => !e.isEntered
  | misused _ => true
  | _ => false

/-- The key was let in or left. -/
def moves [DecidableEq κ] (k : κ) : Deed κ → Bool
  | tried k' e => e.isEntered && k' = k
  | left k' => k' = k
  | _ => false

end Deed

section Calls

variable {κ : Type} [DecidableEq κ]

/-- One call. If it breaks the rules, the guard takes note of that and can be used further. -/
def call (g : Guard κ) : Call κ → Guard κ × Deed κ
  | .enter k => ((g.enter k).1, .tried k (g.enter k).2)
  | .leave k => (g.release k, .ofExcept (.left k) (g.leave k))
  | .reset => (g.restart, .ofExcept .cleared g.reset)

end Calls

/-- A guard, and what came of all calls so far, the latest first. -/
structure Watch (κ : Type) where
  guard : Guard κ
  log : List (Deed κ)

namespace Watch

variable {κ : Type} [DecidableEq κ]

def ofProfile (p : Profile) : Watch κ := ⟨Guard.ofProfile p, []⟩

def call (w : Watch κ) (c : Call κ) : Watch κ := ⟨(w.guard.call c).1, (w.guard.call c).2 :: w.log⟩

def run (w : Watch κ) (calls : List (Call κ)) : Watch κ := calls.foldl Watch.call w

end Watch

/-- What was done since the counters were last cleared. -/
def recent {κ : Type} (log : List (Deed κ)) : List (Deed κ) := log.takeWhile fun d => !d.isCleared

/-- The state of the guard is what the log says. -/
structure InStep {κ : Type} [DecidableEq κ] (g : Guard κ) (log : List (Deed κ)) : Prop where
  distinct : g.active.Nodup
  depth : g.depth = g.active.length
  depth_le : g.depth ≤ g.maxDepth
  iterations : g.iterations = min ((recent log).countP Deed.isTry) Profile.ceiling
  exceeded : g.exceeded = (recent log).any Deed.exceeds
  active : ∀ k, k ∈ g.active ↔ log.find? (Deed.moves k) = some (.tried k .entered)
  exhausted : ∀ k, .tried k .exhausted ∈ recent log → g.maxIterations < g.iterations

/-! ### What a call does -/

section Steps

variable {κ : Type} {g : Guard κ} {log : List (Deed κ)} {k : κ}

theorem recent_cons {d : Deed κ} (h : d.isCleared = false) : recent (d :: log) = d :: recent log := by
  rw [recent, List.takeWhile_cons_of_pos (by rw [h]; rfl), recent]

/-- The guard after an attempt that lets no key in: the attempt counts, and a limit that was met leaves a mark. -/
def turnDown (g : Guard κ) (e : Entry) : Guard κ := { g.tried with exceeded := g.exceeded || e.isExceeded }

theorem turnDown_of_exceeded {e : Entry} (h : e.isExceeded = true) : g.turnDown e = g.refused := by
  rw [turnDown, h, Bool.or_true, refused]

theorem turnDown_cycle (g : Guard κ) : g.turnDown .cycle = g.tried := by
  rw [turnDown, show Entry.cycle.isExceeded = false from rfl, Bool.or_false]
  rfl

variable [DecidableEq κ]

/-- All that a call can do to a guard, and what is then said to have come of it. -/
inductive Step (g : Guard κ) : Call κ → Guard κ → Deed κ → Prop
  | turnedDown {k : κ} {e : Entry} (out : e.isEntered = false)
      (limit : e = .exhausted → g.maxIterations < countUp g.iterations) : Step g (.enter k) (g.turnDown e) (.tried k e)
  | entered {k : κ} (room : g.depth < g.maxDepth) (new : k ∉ g.active) :
    Step g (.enter k) (g.entered k) (.tried k .entered)
  | left {k : κ} (mem : k ∈ g.active) :
      Step g (.leave k) { g with active := g.active.erase k, depth := g.depth - 1 } (.left k)
  | cleared (idle : g.active = []) : Step g .reset { g with depth := 0, iterations := 0, exceeded := false } .cleared
  | leftUnentered {k : κ} (absent : k ∉ g.active) :
      Step g (.leave k) { g with misuse := g.misuse.or (some .leftUnentered) } (.misused .leftUnentered)
  | resetWhileActive (busy : g.active ≠ []) :
      Step g .reset { g with misuse := g.misuse.or (some .resetWhileActive) } (.misused .resetWhileActive)

theorem step_call (g : Guard κ) (c : Call κ) : Step g c (g.call c).1 (g.call c).2 := by
  cases c with
  | enter k =>
    show Step g (.enter k) (g.enter k).1 (.tried k (g.enter k).2)
    rcases g.enter_cases k with ⟨hi, he⟩ | ⟨-, he⟩ | ⟨-, -, he⟩ | ⟨hd, hk, he⟩ <;> rw [he]
    · rw [← turnDown_of_exceeded (e := .exhausted) rfl]
      exact .turnedDown rfl fun _ => hi
    · rw [← turnDown_of_exceeded (e := .tooDeep) rfl]
      exact .turnedDown rfl nofun
    · rw [← turnDown_cycle]
      exact .turnedDown rfl nofun
    · exact .entered hd hk
  | leave k =>
    show Step g (.leave k) (g.release k) (.ofExcept (.left k) (g.leave k))
    unfold release
    by_cases hk : k ∈ g.active
    · rw [leave, if_pos (isActive_iff.mpr hk)]
      exact .left hk
    · rw [leave, if_neg (mt isActive_iff.mp hk)]
      exact .leftUnentered hk
  | reset =>
    show Step g .reset g.restart (.ofExcept .cleared g.reset)
    unfold restart
    by_cases hactive : g.active = []
    · rw [reset, if_pos (List.isEmpty_iff.mpr hactive)]
      exact .cleared hactive
    · rw [reset, if_neg (mt List.isEmpty_iff.mp hactive)]
      exact .resetWhileActive hactive

variable {g' : Guard κ} {c : Call κ} {d : Deed κ}

theorem Step.limits (h : Step g c g' d) : g'.maxDepth = g.maxDepth ∧ g'.maxIterations = g.maxIterations := by
  cases h <;> exact ⟨rfl, rfl⟩

/-- A call that is turned down leaves the keys in work as they are. -/
theorem Step.unmoved (h : Step g c g' d) (hd : d.isRefused = true) : g'.active = g.active ∧ g'.depth = g.depth := by
  cases h with
  | entered => cases hd
  | left => cases hd
  | cleared => cases hd
  | turnedDown | leftUnentered | resetWhileActive => exact ⟨rfl, rfl⟩

namespace InStep

theorem start (p : Profile) : InStep (Watch.ofProfile p : Watch κ).guard (Watch.ofProfile p : Watch κ).log where
  distinct := List.nodup_nil
  depth := rfl
  depth_le := Nat.zero_le _
  iterations := rfl
  exceeded := rfl
  active _ := by simp [Watch.ofProfile, Guard.ofProfile]
  exhausted _ h := absurd h List.not_mem_nil

/-- An attempt counts, whatever comes of it. -/
theorem countUp_iterations (h : InStep g log) (e : Entry) :
    countUp g.iterations = min ((recent (.tried k e :: log)).countP Deed.isTry) Profile.ceiling := by
  rw [h.iterations, countUp_min, recent_cons rfl, List.countP_cons_of_pos rfl]

/-- Once the counter is beyond the limit it stays there. -/
theorem exhausted_tried {k' : κ} {e : Entry} (h : InStep g log)
    (he : e = .exhausted → g.maxIterations < countUp g.iterations)
    (hk' : .tried k' .exhausted ∈ recent (.tried k e :: log)) : g.maxIterations < countUp g.iterations := by
  rw [recent_cons rfl] at hk'
  rcases List.mem_cons.mp hk' with heq | hmem
  · cases heq
    exact he rfl
  · exact Nat.lt_of_lt_of_le (h.exhausted k' hmem) (le_countUp _)

/-- An attempt that lets no key in counts and, at a limit, sets the mark. -/
theorem turnedDown {e : Entry} (h : InStep g log) (hentered : e.isEntered = false)
    (he : e = .exhausted → g.maxIterations < countUp g.iterations) :
    InStep (g.turnDown e) (.tried k e :: log) where
  distinct := h.distinct
  depth := h.depth
  depth_le := h.depth_le
  iterations := h.countUp_iterations e
  exceeded := by
    show (g.exceeded || e.isExceeded) = _
    rw [h.exceeded, recent_cons rfl, List.any_cons, Bool.or_comm]
    rfl
  active k' := by
    have hmoves : ¬Deed.moves k' (.tried k e) = true := by simp [Deed.moves, hentered]
    rw [List.find?_cons_of_neg hmoves]
    exact h.active k'
  exhausted _ hk' := h.exhausted_tried he hk'

theorem entered (h : InStep g log) (hdepth : g.depth < g.maxDepth) (hk : k ∉ g.active) :
    InStep (g.entered k) (.tried k .entered :: log) where
  distinct := List.nodup_cons.mpr ⟨hk, h.distinct⟩
  depth := congrArg (· + 1) h.depth
  depth_le := hdepth
  iterations := h.countUp_iterations .entered
  exceeded := by
    show g.exceeded = _
    rw [h.exceeded, recent_cons rfl]
    rfl
  active k' := by
    show k' ∈ k :: g.active ↔ _
    by_cases hkk : k = k'
    · subst hkk
      simp [Deed.moves, Entry.isEntered]
    · rw [List.mem_cons, h.active k', List.find?_cons_of_neg (by simp [Deed.moves, hkk])]
      simp [Ne.symm hkk]
  exhausted k' hk' := h.exhausted_tried (e := .entered) nofun hk'

/-- What is no attempt and clears nothing leaves the counters as they are. -/
theorem uncounted (h : InStep g log) (hcleared : d.isCleared = false) (htry : d.isTry = false) :
    g.iterations = min ((recent (d :: log)).countP Deed.isTry) Profile.ceiling ∧
      g.exceeded = (recent (d :: log)).any Deed.exceeds ∧
      ∀ k, .tried k .exhausted ∈ recent (d :: log) → g.maxIterations < g.iterations := by
  have hexceeds : d.exceeds = false := by
    cases d with
    | tried => cases htry
    | left | cleared | misused => rfl
  rw [recent_cons hcleared]
  refine ⟨?_, ?_, fun k hk => ?_⟩
  · rw [h.iterations, List.countP_cons_of_neg (by simp [htry])]
  · rw [h.exceeded, List.any_cons, hexceeds, Bool.false_or]
  · rcases List.mem_cons.mp hk with rfl | hk
    · cases htry
    · exact h.exhausted k hk

theorem left (h : InStep g log) (hk : k ∈ g.active) :
    InStep { g with active := g.active.erase k, depth := g.depth - 1 } (.left k :: log) where
  distinct := h.distinct.erase k
  depth := by
    show g.depth - 1 = (g.active.erase k).length
    rw [h.depth, List.length_erase_of_mem hk]
  depth_le := Nat.le_trans (Nat.sub_le _ _) h.depth_le
  iterations := (h.uncounted (d := .left k) rfl rfl).1
  exceeded := (h.uncounted (d := .left k) rfl rfl).2.1
  active k' := by
    show k' ∈ g.active.erase k ↔ _
    by_cases hkk : k = k'
    · -- The key is on the list only once, so it is gone.
      subst hkk
      simp [Deed.moves, h.distinct.mem_erase_iff]
    · rw [h.distinct.mem_erase_iff, h.active k', List.find?_cons_of_neg (by simp [Deed.moves, hkk])]
      simp [Ne.symm hkk]
  exhausted := (h.uncounted (d := .left k) rfl rfl).2.2

theorem cleared (h : InStep g log) (hactive : g.active = []) :
    InStep { g with depth := 0, iterations := 0, exceeded := false } (.cleared :: log) where
  distinct := h.distinct
  depth := by
    show 0 = g.active.length
    rw [hactive]
    rfl
  depth_le := Nat.zero_le _
  iterations := rfl
  exceeded := rfl
  active := h.active
  exhausted _ hk' := absurd hk' List.not_mem_nil

theorem misused (h : InStep g log) (m : Misuse) (noted : Option Misuse) :
    InStep { g with misuse := noted } (.misused m :: log) where
  distinct := h.distinct
  depth := h.depth
  depth_le := h.depth_le
  iterations := (h.uncounted (d := .misused m) rfl rfl).1
  exceeded := (h.uncounted (d := .misused m) rfl rfl).2.1
  active := h.active
  exhausted := (h.uncounted (d := .misused m) rfl rfl).2.2

theorem step (h : InStep g log) (hs : Step g c g' d) : InStep g' (d :: log) := by
  cases hs with
  | turnedDown out limit => exact h.turnedDown out limit
  | entered room new => exact h.entered room new
  | left mem => exact h.left mem
  | cleared idle => exact h.cleared idle
  | leftUnentered absent => exact h.misused _ _
  | resetWhileActive busy => exact h.misused _ _

theorem run {w : Watch κ} (h : InStep w.guard w.log) (calls : List (Call κ)) :
    InStep (w.run calls).guard (w.run calls).log := by
  induction calls generalizing w with
  | nil => exact h
  | cons c calls ih => exact ih (h.step (w.guard.step_call c))

end InStep

theorem Watch.limits_run (w : Watch κ) (calls : List (Call κ)) :
    (w.run calls).guard.maxDepth = w.guard.maxDepth ∧ (w.run calls).guard.maxIterations = w.guard.maxIterations := by
  induction calls generalizing w with
  | nil => exact ⟨rfl, rfl⟩
  | cons c calls ih =>
    obtain ⟨hdepth, hiterations⟩ := (w.guard.step_call c).limits
    obtain ⟨hdepth', hiterations'⟩ := ih (w.call c)
    exact ⟨hdepth'.trans hdepth, hiterations'.trans hiterations⟩

theorem leave_eq_error_iff : g.leave k = .error .leftUnentered ↔ k ∉ g.active := by
  rw [leave, ← isActive_iff]
  split <;> simp_all

omit [DecidableEq κ] in
theorem reset_eq_error_iff : g.reset = .error .resetWhileActive ↔ g.active ≠ [] := by
  rw [reset, ne_eq, ← List.isEmpty_iff]
  split <;> simp_all

theorem enter_of_exhausted (h : g.maxIterations < g.iterations) (k : κ) : g.enter k = (g.refused, .exhausted) := by
  have hup : countUp g.iterations > g.maxIterations := Nat.lt_of_lt_of_le h (le_countUp _)
  simp [enter, hup, refused, Guard.tried]

end Steps

/-- Whatever is called, the guard keeps its limits and its state is what the log says. A call that is turned down moves
    no key, and this includes every leave of a key that is not in work and every reset while one is. Once the guard is
    exhausted it turns down all keys, until it is reset. -/
theorem inStep_run {κ : Type} [DecidableEq κ] (p : Profile) (calls : List (Call κ)) :
    let w := (Watch.ofProfile p).run calls
    (w.guard.maxDepth = p.maxDepth ∧ w.guard.maxIterations = p.maxIterations) ∧
      InStep w.guard w.log ∧
      (∀ c, (w.guard.call c).2.isRefused = true →
        (w.guard.call c).1.active = w.guard.active ∧ (w.guard.call c).1.depth = w.guard.depth) ∧
      (∀ k, w.guard.leave k = .error .leftUnentered ↔ k ∉ w.guard.active) ∧
      (w.guard.reset = .error .resetWhileActive ↔ w.guard.active ≠ []) ∧
      ∀ k, .tried k .exhausted ∈ recent w.log → ∀ k', (w.guard.enter k').2 = .exhausted := by
  intro w
  have hin : InStep w.guard w.log := (InStep.start p).run calls
  refine ⟨Watch.limits_run _ calls, hin, fun c => (w.guard.step_call c).unmoved, fun _ => leave_eq_error_iff,
    reset_eq_error_iff, fun k hk k' => ?_⟩
  rw [enter_of_exhausted (hin.exhausted k hk)]

/-- Two attempts are allowed. The second one meets the other limit, two calls break the rules, and the third attempt
    comes too often: from then on no key is let in. -/
theorem inStep_run_misused :
    let w := (Watch.ofProfile (.custom 1 2)).run [.enter 7, .enter 8, .leave 8, .reset, .enter 9]
    w.log = [.tried 9 .exhausted, .misused .resetWhileActive, .misused .leftUnentered, .tried 8 .tooDeep,
      .tried 7 .entered] ∧
      w.guard.active = [7] ∧ (w.guard.call (.leave 8)).1.active = [7] ∧ ∀ k, (w.guard.enter k).2 = .exhausted := by
  obtain ⟨-, -, hunmoved, -, -, hexhausted⟩ :=
    inStep_run (.custom 1 2) [.enter 7, .enter 8, .leave 8, .reset, .enter 9]
  exact ⟨rfl, rfl, (hunmoved (.leave 8) rfl).1, hexhausted 9 List.mem_cons_self⟩

end Guard

end Nominal
