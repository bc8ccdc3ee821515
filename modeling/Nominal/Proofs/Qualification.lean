import Nominal.Proofs.Interning

/-! Dotted names outlive their storage. The numbers that a pool hands out for a dotted name are put together to the same
    name again, at once and after any further requests. The one exception is a single dot in front of a text without
    dots: there the namespace is empty, which reads as no namespace, and the dot is lost. -/

namespace Nominal

namespace FullName

open NamePool

variable {pool : NamePool} {s s' rest : String}

/-- A single dot in front of a text without dots. -/
def LeadingDot (dotted : String) : Prop := ∃ rest, dotted = "." ++ rest ∧ '.' ∉ rest.toList

theorem splitLastDot_leadingDot (h : '.' ∉ rest.toList) :
    splitLastDot ("." ++ rest).toList = some ([], rest.toList) := by
  have hlist : ("." ++ rest).toList = [] ++ '.' :: rest.toList := by simp
  rw [hlist, splitLastDot_append h]

theorem parts_leadingDot (h : '.' ∉ rest.toList) : parts ("." ++ rest) = ("", rest) := by
  rw [parts, splitLastDot_leadingDot h]
  simp

theorem regular_iff : Regular s ↔ ¬LeadingDot s := by
  unfold Regular
  rw [not_iff_not]
  constructor
  · intro h
    obtain ⟨⟨before, after⟩, hsplit, rfl⟩ := Option.map_eq_some_iff.mp h
    refine ⟨String.ofList after, ?_, ?_⟩
    · apply String.toList_inj.mp
      simp [splitLastDot_eq hsplit]
    · rw [String.toList_ofList]
      exact not_mem_of_splitLastDot hsplit
  · rintro ⟨rest, rfl, hrest⟩
    rw [splitLastDot_leadingDot hrest]
    rfl

instance (dotted : String) : Decidable (LeadingDot dotted) :=
  decidable_of_iff (¬Regular dotted) (by rw [regular_iff, not_not])

/-- The parts of a name are found under its numbers as long as the pool is in use. -/
theorem text?_later (h : pool.Faithful) (s : String) (later : List Request) :
    ((ofText pool s).1.run later).text? (ofText pool s).2.space = some (parts s).1 ∧
      ((ofText pool s).1.run later).text? (ofText pool s).2.name = some (parts s).2 := by
  obtain ⟨hf, -, hspace, hname⟩ := ofText_stores h s
  obtain ⟨-, hgrows⟩ := hf.run later
  exact ⟨hgrows _ _ hspace, hgrows _ _ hname⟩

theorem text_later (h : pool.Faithful) (s : String) (later : List Request) :
    (ofText pool s).2.text ((ofText pool s).1.run later) = join (parts s).1 (parts s).2 := by
  obtain ⟨hspace, hname⟩ := text?_later h s later
  exact text_eq_join ((ofText_stores h s).1.run later).1 hspace hname

/-- Two names are read as the same numbers, at any two times, exactly if they have the same parts. -/
theorem ofText_eq_iff (h : pool.Faithful) (s s' : String) (between : List Request) :
    (ofText pool s).2 = (ofText ((ofText pool s).1.run between) s').2 ↔ parts s = parts s' := by
  have hbetween : ((ofText pool s).1.run between).Faithful := ((ofText_stores h s).1.run between).1
  obtain ⟨hspace, hname⟩ := text?_later h s between
  obtain ⟨hlast, hgrows, hspace', hname'⟩ := ofText_stores hbetween s'
  have hspace := hgrows _ _ hspace
  have hname := hgrows _ _ hname
  constructor
  · intro heq
    rw [← heq] at hspace' hname'
    exact Prod.ext (Option.some.inj (hspace.symm.trans hspace')) (Option.some.inj (hname.symm.trans hname'))
  · intro heq
    rw [heq] at hspace hname
    exact congrArg₂ FullName.mk (hlast.text?_inj hspace hspace') (hlast.text?_inj hname hname')

/-- Of the names that keep their dots, no two have the same parts. -/
theorem parts_eq_iff (hs : Regular s) (hs' : Regular s') : parts s = parts s' ↔ s = s' := by
  constructor
  · intro h
    rw [← join_parts hs, h, join_parts hs']
  · rintro rfl
    rfl

/-- After any run of requests, a dotted name that is read is written again as it was, also after further requests,
    except that a single dot in front of a text without dots is left out. Names without such a dot are equal if they are
    read as the same numbers, whatever is asked for between the two readings. -/
theorem dotted_restored (common : Bool) (requests : List Request) :
    let pool := (initial common).run requests
    (∀ s later, ¬LeadingDot s → (ofText pool s).2.text ((ofText pool s).1.run later) = s) ∧
      (∀ rest later, '.' ∉ rest.toList →
        (ofText pool ("." ++ rest)).2.text ((ofText pool ("." ++ rest)).1.run later) = rest) ∧
      ∀ s s' between, ¬LeadingDot s → ¬LeadingDot s' →
        ((ofText pool s).2 = (ofText ((ofText pool s).1.run between) s').2 ↔ s = s') := by
  intro pool
  have h : pool.Faithful := ((Faithful.begin common).run requests).1
  refine ⟨fun s later hs => ?_, fun rest later hrest => ?_, fun s s' between hs hs' => ?_⟩
  · rw [text_later h, join_parts (regular_iff.mpr hs)]
  · rw [text_later h, parts_leadingDot hrest, join, if_pos rfl]
  · rw [ofText_eq_iff h, parts_eq_iff (regular_iff.mpr hs) (regular_iff.mpr hs')]

/-- Two dots keep both, and are told apart from three; in front of a text without dots, one dot is lost. -/
theorem dotted_restored_dots :
    let pool := (initial true).run [.intern "Box"]
    (¬LeadingDot ".." ∧ (ofText pool "..").2.text ((ofText pool "..").1.run [.read "Box."]) = "..") ∧
      (LeadingDot ".Box" ∧
        (ofText pool ("." ++ "Box")).2.text ((ofText pool ("." ++ "Box")).1.run [.read ".."]) = "Box") ∧
      (ofText pool "..").2 ≠ (ofText ((ofText pool "..").1.run [.read "Box"]) "...").2 := by
  obtain ⟨hkept, hlost, heq⟩ := dotted_restored true [.intern "Box"]
  have htwo : ¬LeadingDot ".." := by decide
  refine ⟨⟨htwo, hkept _ _ htwo⟩, ⟨by decide, hlost _ _ (by decide)⟩, fun h => ?_⟩
  exact absurd ((heq _ _ _ htwo (by decide)).mp h) (by decide)

end FullName

end Nominal
