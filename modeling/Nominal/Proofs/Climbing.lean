import Mathlib.Data.List.Chain
import Nominal.Proofs.Ancestry
import Nominal.Source.Catalogue

/-! What comes of the climb along the bases. A climb passes bases as long as there is another one, its symbol is new and
    there is room for it (`BaseChain.climb_of_passable`). So it ends by itself, or comes back to a symbol, or gets too
    high, and the bases that it passed tell which (`BaseChain.above_cases`). For a source without end this says that the
    climb stops at its limit. -/

namespace Nominal

namespace BaseChain

variable {σ : Type} [TypeSource σ] {src : σ} {limit room : Nat} {passed : List Symbol} {r b : TypeRef}
  {bs : List TypeRef}

/-! ### Bases that can be passed -/

/-- The last of the bases `bs` above `r`, or `r` if there are none. -/
def top (r : TypeRef) (bs : List TypeRef) : TypeRef := (r :: bs).getLast (List.cons_ne_nil r bs)

theorem top_cons (r b : TypeRef) (bs : List TypeRef) : top r (b :: bs) = top b bs := List.getLast_cons_cons

/-- A climb from `r` can pass the bases `bs`, the nearest first: each one is the base of the one before it, and its
    symbol was not passed yet. -/
structure Passable (src : σ) (passed : List Symbol) (r : TypeRef) (bs : List TypeRef) : Prop where
  steps : (r :: bs).IsChain (Below src)
  fresh : ((bs.map TypeRef.symbol).reverse ++ passed).Nodup

theorem Passable.nil (h : passed.Nodup) : Passable src passed r [] := ⟨.singleton r, h⟩

theorem passable_cons_iff :
    Passable src passed r (b :: bs) ↔ Below src r b ∧ Passable src (b.symbol :: passed) b bs := by
  have hfresh : (((b :: bs).map TypeRef.symbol).reverse ++ passed) =
      (bs.map TypeRef.symbol).reverse ++ b.symbol :: passed := by
    simp
  constructor
  · rintro ⟨hsteps, hnodup⟩
    obtain ⟨hb, hsteps⟩ := List.isChain_cons_cons.mp hsteps
    exact ⟨hb, hsteps, hfresh ▸ hnodup⟩
  · rintro ⟨hb, hsteps, hnodup⟩
    exact ⟨List.isChain_cons_cons.mpr ⟨hb, hsteps⟩, hfresh ▸ hnodup⟩

theorem Passable.not_mem (h : Passable src (b.symbol :: passed) b bs) : b.symbol ∉ passed :=
  (List.nodup_cons.mp (List.nodup_append.mp h.fresh).2.1).1

/-- A climb with room for `bs` passes them and goes on from there. -/
theorem climb_of_passable (h : Passable src passed r bs) (hroom : bs.length ≤ room) :
    climb src limit room passed r =
      ⟨bs ++ (climb src limit (room - bs.length) ((bs.map TypeRef.symbol).reverse ++ passed) (top r bs)).ancestors,
        (climb src limit (room - bs.length) ((bs.map TypeRef.symbol).reverse ++ passed) (top r bs)).failure?⟩ := by
  induction bs generalizing passed r room with
  | nil => rfl
  | cons b bs ih =>
    obtain ⟨hb, hrest⟩ := passable_cons_iff.mp h
    obtain ⟨room, rfl⟩ : ∃ k, room = k + 1 := Nat.exists_eq_add_one.mpr (Nat.lt_of_lt_of_le (Nat.succ_pos _) hroom)
    rw [climb_of_below hb hrest.not_mem, ih hrest (Nat.le_of_succ_le_succ hroom), top_cons]
    simp

/-- A climb passes as many bases as it can: it stops only at the end, or before a symbol that was passed, or with no
    room left. -/
theorem exists_passable (src : σ) (room : Nat) (hpassed : passed.Nodup) (r : TypeRef) :
    ∃ bs, Passable src passed r bs ∧ bs.length ≤ room ∧
      (next? src (top r bs) = none ∨ ∃ b, Below src (top r bs) b ∧
        (b.symbol ∈ (bs.map TypeRef.symbol).reverse ++ passed ∨
          b.symbol ∉ (bs.map TypeRef.symbol).reverse ++ passed ∧ bs.length = room)) := by
  -- Each base that is passed takes one of the room and is added to what was passed.
  induction room generalizing passed r with
  | zero =>
    refine ⟨[], .nil hpassed, Nat.le_refl _, ?_⟩
    cases hn : next? src r with
    | none => exact Or.inl hn
    | some b =>
      by_cases hb : b.symbol ∈ passed
      · exact Or.inr ⟨b, hn, Or.inl hb⟩
      · exact Or.inr ⟨b, hn, Or.inr ⟨hb, rfl⟩⟩
  | succ room ih =>
    cases hn : next? src r with
    | none => exact ⟨[], .nil hpassed, Nat.zero_le _, Or.inl hn⟩
    | some b =>
      by_cases hb : b.symbol ∈ passed
      · exact ⟨[], .nil hpassed, Nat.zero_le _, Or.inr ⟨b, hn, Or.inl hb⟩⟩
      · obtain ⟨bs, hbs, hlength, hstop⟩ := ih (List.nodup_cons.mpr ⟨hb, hpassed⟩) b
        refine ⟨b :: bs, passable_cons_iff.mpr ⟨hn, hbs⟩, Nat.succ_le_succ hlength, ?_⟩
        simpa [top_cons] using hstop

/-! ### The whole climb -/

/-- The references of `bs` stand above `r`, each one as the base of the one before it, and no two of all these have one
    symbol. -/
structure Leads (src : σ) (r : TypeRef) (bs : List TypeRef) : Prop where
  steps : (r :: bs).IsChain (Below src)
  distinct : ((r :: bs).map TypeRef.symbol).Nodup

/-- The chain of bases above `r` is `bs`, and it is not too long for the limit. -/
structure Ends (src : σ) (limit : Nat) (r : TypeRef) (bs : List TypeRef) : Prop extends Leads src r bs where
  last : ∀ b, ¬Below src (top r bs) b
  length : bs.length = 0 ∨ bs.length + 1 ≤ limit

/-- After `bs` the chain of bases above `r` comes back to a symbol for the first time, with `b`, and the limit lets it
    get there. -/
structure Returns (src : σ) (limit : Nat) (r : TypeRef) (bs : List TypeRef) (b : TypeRef) : Prop
    extends Leads src r bs where
  next : Below src (top r bs) b
  again : b.symbol ∈ (r :: bs).map TypeRef.symbol
  length : bs.length + 1 = 1 ∨ bs.length + 1 ≤ limit

theorem reverse_passed (r : TypeRef) (bs : List TypeRef) :
    (bs.map TypeRef.symbol).reverse ++ [r.symbol] = ((r :: bs).map TypeRef.symbol).reverse := by
  simp

theorem leads_iff_passable : Leads src r bs ↔ Passable src [r.symbol] r bs := by
  constructor
  · rintro ⟨hsteps, hdistinct⟩
    exact ⟨hsteps, by rw [reverse_passed, List.nodup_reverse]; exact hdistinct⟩
  · rintro ⟨hsteps, hfresh⟩
    rw [reverse_passed, List.nodup_reverse] at hfresh
    exact ⟨hsteps, hfresh⟩

theorem above_of_leads (h : Leads src r bs) (hlength : bs.length ≤ limit - 1) :
    above src limit r =
      ⟨bs ++ (climb src limit (limit - 1 - bs.length) ((r :: bs).map TypeRef.symbol).reverse (top r bs)).ancestors,
        (climb src limit (limit - 1 - bs.length) ((r :: bs).map TypeRef.symbol).reverse (top r bs)).failure?⟩ := by
  rw [above, climb_of_passable (leads_iff_passable.mp h) hlength, reverse_passed]

theorem above_of_ends (h : Ends src limit r bs) : above src limit r = ⟨bs, none⟩ := by
  have hlength := h.length
  have hend : next? src (top r bs) = none := Option.eq_none_iff_forall_ne_some.mpr h.last
  rw [above_of_leads h.toLeads (by omega), climb_of_end hend, List.append_nil]

theorem above_of_returns (h : Returns src limit r bs b) :
    above src limit r = ⟨bs, some (.inheritanceCycle b.symbol)⟩ := by
  have hlength := h.length
  rw [above_of_leads h.toLeads (by omega), climb_of_passed h.next (List.mem_reverse.mpr h.again), List.append_nil]

theorem above_of_full (h : Leads src r bs) (hlength : bs.length = limit - 1) (hnext : Below src (top r bs) b)
    (hfresh : b.symbol ∉ (r :: bs).map TypeRef.symbol) : above src limit r = ⟨bs, some (.tooDeep limit)⟩ := by
  rw [above_of_leads h (Nat.le_of_eq hlength), hlength, Nat.sub_self,
    climb_of_full hnext fun hmem => hfresh (List.mem_reverse.mp hmem), List.append_nil]

/-- The three ways in which a climb comes to an end. -/
theorem above_cases (src : σ) (limit : Nat) (r : TypeRef) :
    ∃ bs, bs.length ≤ limit - 1 ∧
      ((Ends src limit r bs ∧ above src limit r = ⟨bs, none⟩) ∨
        (∃ b, Returns src limit r bs b ∧ above src limit r = ⟨bs, some (.inheritanceCycle b.symbol)⟩) ∨
        above src limit r = ⟨bs, some (.tooDeep limit)⟩) := by
  obtain ⟨bs, hbs, hlength, hstop⟩ := exists_passable src (limit - 1) (List.nodup_singleton r.symbol) r
  have hleads := leads_iff_passable.mpr hbs
  rw [reverse_passed] at hstop
  refine ⟨bs, hlength, ?_⟩
  rcases hstop with hend | ⟨b, hb, hmem | ⟨hfresh, hfull⟩⟩
  · have hends : Ends src limit r bs := ⟨hleads, fun b hb => (by cases hend.symm.trans hb), by omega⟩
    exact Or.inl ⟨hends, above_of_ends hends⟩
  · have hreturns : Returns src limit r bs b := ⟨hleads, hb, List.mem_reverse.mp hmem, by omega⟩
    exact Or.inr (Or.inl ⟨b, hreturns, above_of_returns hreturns⟩)
  · exact Or.inr (Or.inr (above_of_full hleads hfull hb fun hmem => hfresh (List.mem_reverse.mpr hmem)))

end BaseChain

/-! ### Supertypes -/

open BaseChain

section Supertypes

variable {σ : Type} [TypeSource σ] {src : σ} {r : TypeRef} {p : Profile} {found bs : List TypeRef} {e : Failure}
  (hfound : TypeSource.interfacesWithin src r.symbol p = .ok found)

include hfound

theorem supertypesOf_of_stopped (h : above src p.maxDepth r = ⟨bs, some e⟩) : supertypesOf src r p = .error e := by
  simp only [supertypesOf, Ancestry.supertypes, Ancestry.ofRef, hfound, h, Except.map]

theorem supertypesOf_of_ends (h : Ends src p.maxDepth r bs) :
    supertypesOf src r p = .ok (found.map (fun i => (r.instantiate i).normalized) ++ bs.map TypeRef.normalized) := by
  simp only [supertypesOf, Ancestry.supertypes, Ancestry.ofRef, hfound, above_of_ends h, Except.map]

theorem supertypesOf_of_returns {b : TypeRef} (h : Returns src p.maxDepth r bs b) :
    supertypesOf src r p = .error (.inheritanceCycle b.symbol) :=
  supertypesOf_of_stopped hfound (above_of_returns h)

theorem supertypesOf_cases :
    (∃ bs, Ends src p.maxDepth r bs) ∨ (∃ bs b, Returns src p.maxDepth r bs b) ∨
      supertypesOf src r p = .error (.tooDeep p.maxDepth) := by
  obtain ⟨bs, -, ⟨h, -⟩ | ⟨b, h, -⟩ | h⟩ := above_cases src p.maxDepth r
  · exact Or.inl ⟨bs, h⟩
  · exact Or.inr (Or.inl ⟨bs, b, h⟩)
  · exact Or.inr (Or.inr (supertypesOf_of_stopped hfound h))

end Supertypes

theorem length_above_le {σ : Type} [TypeSource σ] (src : σ) (limit : Nat) (r : TypeRef) :
    (above src limit r).ancestors.length ≤ limit - 1 := by
  obtain ⟨bs, hlength, ⟨-, h⟩ | ⟨b, -, h⟩ | h⟩ := above_cases src limit r <;> rw [h] <;> exact hlength

/-- If the interfaces of a reference are found, its supertypes are listed exactly if the chain of its bases ends, comes
    to no symbol twice and is not too long for the limit, and then all of them are listed. The chain is refused for a
    cycle exactly if it comes back to a symbol before it is too long, and for its length in all other cases. The climb
    never passes as many bases as the limit has levels, so that it comes to an end. -/
theorem supertypesOf_outcome {σ : Type} [TypeSource σ] (src : σ) (r : TypeRef) (p : Profile) (found : List TypeRef)
    (hfound : TypeSource.interfacesWithin src r.symbol p = .ok found) :
    (∀ l, supertypesOf src r p = .ok l ↔ ∃ bs, Ends src p.maxDepth r bs ∧
      l = found.map (fun i => (r.instantiate i).normalized) ++ bs.map TypeRef.normalized) ∧
    (∀ c, supertypesOf src r p = .error (.inheritanceCycle c) ↔ ∃ bs b, Returns src p.maxDepth r bs b ∧ c = b.symbol) ∧
    (supertypesOf src r p = .error (.tooDeep p.maxDepth) ↔
      (∀ bs, ¬Ends src p.maxDepth r bs) ∧ ∀ bs b, ¬Returns src p.maxDepth r bs b) ∧
    (above src p.maxDepth r).ancestors.length ≤ p.maxDepth - 1 := by
  -- The three endings exclude each other by their results, so it is enough to know that one of them comes about.
  have hends {bs : List TypeRef} (h : Ends src p.maxDepth r bs) := supertypesOf_of_ends hfound h
  have hreturns {bs : List TypeRef} {b : TypeRef} (h : Returns src p.maxDepth r bs b) :=
    supertypesOf_of_returns hfound h
  have hcases := supertypesOf_cases hfound
  refine ⟨fun l => ⟨fun hl => ?_, ?_⟩, fun c => ⟨fun hc => ?_, ?_⟩, ⟨fun hdeep => ⟨?_, ?_⟩, ?_⟩, length_above_le _ _ _⟩
  · rcases hcases with ⟨bs, h⟩ | ⟨bs, b, h⟩ | h
    · cases (hends h).symm.trans hl
      exact ⟨bs, h, rfl⟩
    · cases (hreturns h).symm.trans hl
    · cases h.symm.trans hl
  · rintro ⟨bs, h, rfl⟩
    exact hends h
  · rcases hcases with ⟨bs, h⟩ | ⟨bs, b, h⟩ | h
    · cases (hends h).symm.trans hc
    · cases (hreturns h).symm.trans hc
      exact ⟨bs, b, h, rfl⟩
    · cases h.symm.trans hc
  · rintro ⟨bs, b, h, rfl⟩
    exact hreturns h
  · intro bs h
    cases (hends h).symm.trans hdeep
  · intro bs b h
    cases (hreturns h).symm.trans hdeep
  · rintro ⟨hnoEnd, hnoReturn⟩
    rcases hcases with ⟨bs, h⟩ | ⟨bs, b, h⟩ | h
    · exact absurd h (hnoEnd bs)
    · exact absurd h (hnoReturn bs b)
    · exact h

/-- Above the first symbol are the second and the third, whose base is the second again. Above the fourth, a generic
    one, are two others and the root. -/
def spiral : Catalogue where
  entries := [
    { symbol := ⟨1⟩, arity := 0, base? := some ⟨⟨2⟩, []⟩ },
    { symbol := ⟨2⟩, arity := 0, base? := some ⟨⟨3⟩, []⟩ },
    { symbol := ⟨3⟩, arity := 0, base? := some ⟨⟨2⟩, []⟩ },
    { symbol := ⟨4⟩, arity := 1, base? := some ⟨⟨5⟩, [.param ⟨⟨4⟩, 0⟩]⟩, interfaces := [⟨⟨7⟩, [.param ⟨⟨4⟩, 0⟩]⟩] },
    { symbol := ⟨5⟩, arity := 1, base? := some ⟨⟨6⟩, [.type ⟨5⟩ [.param ⟨⟨5⟩, 0⟩]]⟩ },
    { symbol := ⟨6⟩, arity := 1, base? := some ⟨⟨8⟩, []⟩ },
    { symbol := ⟨7⟩, arity := 1 },
    { symbol := ⟨8⟩, arity := 0, isRoot := true }]

/-- Three levels are just enough to see that the chain comes back to a symbol. -/
theorem returns_spiral : Returns spiral 3 ⟨⟨1⟩, []⟩ [⟨⟨2⟩, []⟩, ⟨⟨3⟩, []⟩] ⟨⟨2⟩, []⟩ where
  steps := .cons_cons rfl (.cons_cons rfl (.singleton _))
  distinct := by decide
  next := rfl
  again := by decide
  length := Or.inr (Nat.le_refl 3)

theorem ends_spiral (x : TypeArg) : Ends spiral 3 ⟨⟨4⟩, [x]⟩ [⟨⟨5⟩, [x]⟩, ⟨⟨6⟩, [.type ⟨5⟩ [x]]⟩] where
  steps := .cons_cons rfl (.cons_cons rfl (.singleton _))
  distinct := by
    show ([⟨4⟩, ⟨5⟩, ⟨6⟩] : List Symbol).Nodup
    decide
  last := by rintro b ⟨⟩
  length := Or.inr (Nat.le_refl 3)

/-- With three levels the first chain is found to be a cycle and the second one is listed. Above the open definition,
    what is applied to nothing but its parameter is listed as an open definition too. With two levels both chains are
    too long. -/
theorem supertypesOf_spiral :
    supertypesOf spiral ⟨⟨1⟩, []⟩ (.custom 3 0) = .error (.inheritanceCycle ⟨2⟩) ∧
    supertypesOf spiral ⟨⟨4⟩, [.type ⟨1⟩ []]⟩ (.custom 3 0) =
      .ok [⟨⟨7⟩, [.type ⟨1⟩ []]⟩, ⟨⟨5⟩, [.type ⟨1⟩ []]⟩, ⟨⟨6⟩, [.type ⟨5⟩ [.type ⟨1⟩ []]]⟩] ∧
    supertypesOf spiral ⟨⟨4⟩, [.param ⟨⟨4⟩, 0⟩]⟩ (.custom 3 0) =
      .ok [⟨⟨7⟩, [.param ⟨⟨7⟩, 0⟩]⟩, ⟨⟨5⟩, [.param ⟨⟨5⟩, 0⟩]⟩, ⟨⟨6⟩, [.type ⟨5⟩ [.param ⟨⟨4⟩, 0⟩]]⟩] ∧
    supertypesOf spiral ⟨⟨1⟩, []⟩ (.custom 2 0) = .error (.tooDeep 2) ∧
    supertypesOf spiral ⟨⟨4⟩, [.type ⟨1⟩ []]⟩ (.custom 2 0) = .error (.tooDeep 2) := by
  have hlisted (x : TypeArg) {l : List TypeRef}
      (hl : l = [⟨⟨7⟩, [x]⟩, ⟨⟨5⟩, [x]⟩, ⟨⟨6⟩, [.type ⟨5⟩ [x]]⟩].map TypeRef.normalized) :
      supertypesOf spiral ⟨⟨4⟩, [x]⟩ (.custom 3 0) = .ok l :=
    ((supertypesOf_outcome spiral ⟨⟨4⟩, [x]⟩ (.custom 3 0) [⟨⟨7⟩, [.param ⟨⟨4⟩, 0⟩]⟩] rfl).1 l).mpr
      ⟨_, ends_spiral x, hl⟩
  refine ⟨?_, hlisted _ (by decide), hlisted _ (by decide), by decide, by decide⟩
  exact ((supertypesOf_outcome spiral ⟨⟨1⟩, []⟩ (.custom 3 0) [] rfl).2.1 ⟨2⟩).mpr ⟨_, _, returns_spiral, rfl⟩

end Nominal
