import Nominal.Ancestry
import Nominal.Proofs.Flattening

/-! What is found above a reference. A climb along the bases that nothing stops finds every base above, and passes no
    symbol twice; it is stopped by nothing but a cycle if its limit is the number of declarations. With the interfaces
    from the listing, this says which supertypes a table lists, and that it lists them at all where nothing is above
    itself. -/

namespace Nominal

variable {σ : Type} [TypeSource σ] {src : σ} {t : Table} {limit room : Nat} {passed : List Symbol} {r b : TypeRef}

namespace BaseChain

/-! ### The climb -/

/-- The second reference is the base of the first, and not the root. -/
def Below (src : σ) (r b : TypeRef) : Prop := next? src r = some b

theorem climb_of_end (h : next? src r = none) : climb src limit room passed r = ⟨[], none⟩ := by
  unfold climb
  simp only [h]

theorem climb_of_passed (h : Below src r b) (hb : b.symbol ∈ passed) :
    climb src limit room passed r = ⟨[], some (.inheritanceCycle b.symbol)⟩ := by
  unfold Below at h
  unfold climb
  simp [h, hb]

theorem climb_of_full (h : Below src r b) (hb : b.symbol ∉ passed) :
    climb src limit 0 passed r = ⟨[], some (.tooDeep limit)⟩ := by
  unfold Below at h
  unfold climb
  simp [h, hb]

theorem climb_of_below (h : Below src r b) (hb : b.symbol ∉ passed) :
    climb src limit (room + 1) passed r =
      ⟨b :: (climb src limit room (b.symbol :: passed) b).ancestors,
        (climb src limit room (b.symbol :: passed) b).failure?⟩ := by
  unfold Below at h
  rw [climb]
  simp [h, hb]

/-- A climb that nothing stops has ended, or has passed a new symbol and gone on from there. -/
theorem climb_cases (h : (climb src limit room passed r).failure? = none) :
    (next? src r = none ∧ (climb src limit room passed r).ancestors = []) ∨
      ∃ b rest, Below src r b ∧ b.symbol ∉ passed ∧ room = rest + 1 ∧
        (climb src limit rest (b.symbol :: passed) b).failure? = none ∧
        (climb src limit room passed r).ancestors = b :: (climb src limit rest (b.symbol :: passed) b).ancestors := by
  cases hn : next? src r with
  | none => exact Or.inl ⟨rfl, by rw [climb_of_end hn]⟩
  | some b =>
    by_cases hb : b.symbol ∈ passed
    · rw [climb_of_passed hn hb] at h
      cases h
    · cases room with
      | zero =>
        rw [climb_of_full hn hb] at h
        cases h
      | succ rest =>
        rw [climb_of_below hn hb] at h ⊢
        exact Or.inr ⟨b, rest, hn, hb, rfl, h, rfl⟩

theorem above_iff {c : TypeRef} (h : Below src r b) :
    Relation.TransGen (Below src) r c ↔ c = b ∨ Relation.TransGen (Below src) b c := by
  rw [← Relation.reflTransGen_iff_eq_or_transGen, Relation.TransGen.head'_iff]
  constructor
  · rintro ⟨b', hb', hc⟩
    cases h.symm.trans hb'
    exact hc
  · intro hc
    exact ⟨b, h, hc⟩

theorem not_above_of_end (h : next? src r = none) : ¬Relation.TransGen (Below src) r b := by
  intro hb
  obtain ⟨c, hc, -⟩ := Relation.TransGen.head'_iff.mp hb
  cases h.symm.trans hc

theorem mem_ancestors_iff (h : (climb src limit room passed r).failure? = none) :
    b ∈ (climb src limit room passed r).ancestors ↔ Relation.TransGen (Below src) r b := by
  induction room generalizing passed r with
  | zero =>
    obtain ⟨hn, ha⟩ | ⟨_, _, _, _, h0, -⟩ := climb_cases h
    · simp [ha, not_above_of_end hn]
    · cases h0
  | succ room ih =>
    obtain ⟨hn, ha⟩ | ⟨c, rest, hc, -, hrest, hok, ha⟩ := climb_cases h
    · simp [ha, not_above_of_end hn]
    · cases hrest
      rw [ha, List.mem_cons, ih hok, above_iff hc]

theorem not_mem_passed (h : (climb src limit room passed r).failure? = none)
    (hb : Relation.TransGen (Below src) r b) : b.symbol ∉ passed := by
  induction room generalizing passed r with
  | zero =>
    obtain ⟨hn, -⟩ | ⟨_, _, _, _, h0, -⟩ := climb_cases h
    · exact absurd hb (not_above_of_end hn)
    · cases h0
  | succ room ih =>
    obtain ⟨hn, -⟩ | ⟨c, rest, hc, hcp, hrest, hok, -⟩ := climb_cases h
    · exact absurd hb (not_above_of_end hn)
    · cases hrest
      rcases (above_iff hc).mp hb with rfl | hb
      · exact hcp
      · exact fun hp => ih hok hb (List.mem_cons_of_mem _ hp)

/-! ### Climbs in a table -/

theorem below_iff :
    Below t r b ↔ ∃ d x, t.get? r.symbol = some d ∧ d.base? = some x ∧ TypeSource.isRoot t x.symbol = false ∧
      b = r.instantiate x := by
  have hbase {x : TypeRef} : TypeSource.base? t r.symbol = some x ↔ ∃ d, t.get? r.symbol = some d ∧ d.base? = some x :=
    Option.bind_eq_some_iff
  unfold Below next?
  constructor
  · intro h
    split at h
    · cases h
    · next x hx =>
      obtain ⟨d, hd, hx⟩ := hbase.mp hx
      cases hroot : TypeSource.isRoot t x.symbol with
      | true => simp [hroot] at h
      | false =>
        rw [hroot] at h
        cases h
        exact ⟨d, x, hd, hx, hroot, rfl⟩
  · rintro ⟨d, x, hd, hx, hroot, rfl⟩
    simp [hbase.mpr ⟨d, hd, hx⟩, hroot]

theorem Below.step (h : Below t r b) : t.Step r b := by
  obtain ⟨d, x, hd, hx, -, rfl⟩ := below_iff.mp h
  exact ⟨d, hd, x, Declaration.mem_relations.mpr (Or.inr hx), rfl⟩

theorem Below.extends (h : Below t r b) : t.Extends r.symbol b.symbol := h.step.extends

/-- References to one symbol have bases of the same symbols above them. -/
theorem exists_above {r' : TypeRef} (hs : r'.symbol = r.symbol) (h : Relation.TransGen (Below t) r b) :
    ∃ b', Relation.TransGen (Below t) r' b' ∧ b'.symbol = b.symbol := by
  induction h with
  | single h =>
    obtain ⟨d, x, hd, hx, hroot, rfl⟩ := below_iff.mp h
    exact ⟨r'.instantiate x, .single (below_iff.mpr ⟨d, x, hs ▸ hd, hx, hroot, rfl⟩), rfl⟩
  | tail _ h ih =>
    obtain ⟨c, hc, hcs⟩ := ih
    obtain ⟨d, x, hd, hx, hroot, rfl⟩ := below_iff.mp h
    exact ⟨c.instantiate x, hc.tail (below_iff.mpr ⟨d, x, hcs ▸ hd, hx, hroot, rfl⟩), rfl⟩

/-- With as many levels as there are declarations, only a cycle stops a climb: the symbols passed are different. -/
theorem failure?_of_size (hcl : t.Closed) (hnd : passed.Nodup) (hin : ∀ q ∈ passed, t.contains q = true)
    (hroom : t.size ≤ passed.length + room) :
    (climb t limit room passed r).failure? = none ∨
      ∃ c, (climb t limit room passed r).failure? = some (.inheritanceCycle c) := by
  induction room generalizing passed r with
  | zero =>
    cases hn : next? t r with
    | none => exact Or.inl (by rw [climb_of_end hn])
    | some b =>
      by_cases hb : b.symbol ∈ passed
      · exact Or.inr ⟨b.symbol, by rw [climb_of_passed hn hb]⟩
      · have hlen := Table.length_le_size (t := t) (List.nodup_cons.mpr ⟨hb, hnd⟩) (by
          simpa using ⟨hcl _ _ (Below.extends hn), hin⟩)
        simp only [List.length_cons] at hlen
        omega
  | succ room ih =>
    cases hn : next? t r with
    | none => exact Or.inl (by rw [climb_of_end hn])
    | some b =>
      by_cases hb : b.symbol ∈ passed
      · exact Or.inr ⟨b.symbol, by rw [climb_of_passed hn hb]⟩
      · rw [climb_of_below hn hb]
        refine ih (List.nodup_cons.mpr ⟨hb, hnd⟩) ?_ (by simp only [List.length_cons]; omega)
        simpa using ⟨hcl _ _ (Below.extends hn), hin⟩

/-- Where nothing is above itself, nothing stops a climb with as many levels as there are declarations above. -/
theorem failure?_of_rank (hac : t.Acyclic) (hcl : t.Closed) (hroom : t.rank r.symbol ≤ room + 1)
    (hoff : ∀ q ∈ passed, ¬Relation.TransGen t.Extends r.symbol q) : (climb t limit room passed r).failure? = none := by
  induction room generalizing passed r with
  | zero =>
    cases hn : next? t r with
    | none => rw [climb_of_end hn]
    | some b =>
      have hlt := Table.rank_lt_of_extends hac hcl (Below.extends hn)
      have hpos := t.one_le_rank b.symbol
      omega
  | succ room ih =>
    cases hn : next? t r with
    | none => rw [climb_of_end hn]
    | some b =>
      have hext : t.Extends r.symbol b.symbol := Below.extends hn
      have hlt := Table.rank_lt_of_extends hac hcl hext
      rw [climb_of_below hn fun hp => hoff _ hp (.single hext)]
      refine ih (by omega) fun q hq hr => ?_
      rcases List.mem_cons.mp hq with rfl | hq
      · exact hac _ hr
      · exact hoff q hq (.head hext hr)

end BaseChain

/-! ### Supertypes -/

variable {p : Profile} {l : List TypeRef}

theorem supertypesOf_eq_ok (h : supertypesOf src r p = .ok l) :
    ∃ found, TypeSource.interfacesWithin src r.symbol p = .ok found ∧
      (BaseChain.above src p.maxDepth r).failure? = none ∧
      l = found.map (fun i => (r.instantiate i).normalized) ++
        (BaseChain.above src p.maxDepth r).ancestors.map TypeRef.normalized := by
  unfold supertypesOf Ancestry.supertypes Ancestry.ofRef at h
  cases hi : TypeSource.interfacesWithin src r.symbol p with
  | error e => simp [hi, Except.map] at h
  | ok found =>
    cases hf : (BaseChain.above src p.maxDepth r).failure? with
    | some e => simp [hi, hf, Except.map] at h
    | none =>
      simp only [hi, hf, Except.map] at h
      cases h
      exact ⟨found, rfl, rfl, rfl⟩

theorem supertypesOf_of_rank (hac : t.Acyclic) (hcl : t.Closed) (hdepth : t.rank r.symbol ≤ p.maxDepth)
    (hi : Profile.ceiling ≤ p.maxIterations) : ∃ l, supertypesOf t r p = .ok l := by
  have hfound := Table.interfacesWithin_of_rank hac hcl hdepth hi
  have hchain : (BaseChain.above t p.maxDepth r).failure? = none := by
    have hpos := t.one_le_rank r.symbol
    refine BaseChain.failure?_of_rank hac hcl (by omega) fun q hq hr => ?_
    rw [List.mem_singleton.mp hq] at hr
    exact hac _ hr
  unfold supertypesOf Ancestry.supertypes Ancestry.ofRef
  simp [TypeSource.interfacesWithin, hfound, hchain, Except.map]

theorem symbol_normalized : r.normalized.symbol = r.symbol := by
  unfold TypeRef.normalized
  split <;> rfl

/-- What a table lists above a reference, if it lists it at all. -/
theorem mem_supertypesOf_iff (h : supertypesOf t r p = .ok l) {q : TypeRef} :
    q ∈ l ↔ ∃ m, (m ∈ (t.flattened r.symbol).map r.instantiate ∨ Relation.TransGen (BaseChain.Below t) r m) ∧
      q = m.normalized := by
  obtain ⟨found, hf, hc, rfl⟩ := supertypesOf_eq_ok h
  cases Table.interfacesWithin_eq_flattened hf
  have hanc {m : TypeRef} := BaseChain.mem_ancestors_iff (b := m) hc
  simp only [List.mem_append, List.mem_map]
  constructor
  · rintro (⟨i, hi, rfl⟩ | ⟨m, hm, rfl⟩)
    · exact ⟨r.instantiate i, Or.inl ⟨i, hi, rfl⟩, rfl⟩
    · exact ⟨m, Or.inr (hanc.mp hm), rfl⟩
  · rintro ⟨m, ⟨i, hi, rfl⟩ | hm, rfl⟩
    · exact Or.inl ⟨i, hi, rfl⟩
    · exact Or.inr ⟨m, hanc.mpr hm, rfl⟩

theorem reaches_of_mem_supertypesOf (h : supertypesOf t r p = .ok l) {q : TypeRef} (hq : q ∈ l) :
    Relation.TransGen t.Extends r.symbol q.symbol := by
  obtain ⟨m, hm, rfl⟩ := (mem_supertypesOf_iff h).mp hq
  rw [symbol_normalized]
  rcases hm with hm | hm
  · obtain ⟨i, hi, rfl⟩ := List.mem_map.mp hm
    have hreach := Table.reaches_of_mem_flattened hi
    exact hreach
  · exact hm.lift TypeRef.symbol fun _ _ => BaseChain.Below.extends

/-- What is above a declaration is above its open definition. -/
theorem supertypesOf_of_mem_supertypes {σ : Type} [TypeSource σ] {src : σ} {c : Symbol} (h : supertypes src c p = .ok l)
    {q : TypeRef} (hq : q ∈ l) : ∃ n, TypeSource.arity? src c = some n ∧ supertypesOf src (.opened c n) p = .ok l := by
  cases hd : TypeSource.definition? src c with
  | none =>
    simp only [supertypes, hd] at h
    cases h
    cases hq
  | some d =>
    obtain ⟨n, hn, rfl⟩ := Option.map_eq_some_iff.mp hd
    simp only [supertypes, hd] at h
    exact ⟨n, hn, h⟩

end Nominal
