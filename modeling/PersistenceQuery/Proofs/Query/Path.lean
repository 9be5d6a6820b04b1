import PersistenceQuery.Query.Path

/-!
# Paths and their texts

Cutting a text at its points and joining the pieces again gives the text back, whatever points there
are.  The other way round it takes a path whose segments can be told from each other in its text:
there is a segment, and none of them holds a point.

## Main definitions

* `Path.IsPlain` — the path has segments, and there is no point in them.

## Main results

* `Path.cut_joined_of_ne_nil` — the pieces of joined segments are the pieces of the segments.
* `Path.cut_joined_eq_self_iff` — the segments that are the pieces of their text.
* `Path.text_roundTrip` — a text and the path it stands for, in both directions.
-/

namespace PersistenceQuery
namespace Path

/-- The path has a segment, and no segment holds a point. -/
def IsPlain (p : Path) : Prop := p.segments ≠ [] ∧ ∀ s ∈ p.segments, '.' ∉ s.toList

instance (p : Path) : Decidable p.IsPlain := inferInstanceAs (Decidable (_ ∧ _))

/-! ### Pieces of a text -/

theorem cut_ne_nil (cs : List Char) : cut cs ≠ [] := by
  cases cs with
  | nil => exact List.cons_ne_nil _ _
  | cons c cs =>
    rw [cut]
    split
    · exact List.cons_ne_nil _ _
    · split <;> exact List.cons_ne_nil _ _

/-- A point cuts a text in two, whatever points there are on its sides. -/
theorem cut_append_point (as bs : List Char) : cut (as ++ '.' :: bs) = cut as ++ cut bs := by
  induction as with
  | nil => simp [cut]
  | cons a as ih =>
    rw [List.cons_append, cut, cut, ih]
    split
    · rfl
    · obtain ⟨s, rest, hcut⟩ := List.exists_cons_of_ne_nil (cut_ne_nil as)
      rw [hcut]
      rfl

theorem joined_cons {ss : List (List Char)} (h : ss ≠ []) (s : List Char) :
    joined (s :: ss) = s ++ '.' :: joined ss := by
  cases ss with
  | nil => exact absurd rfl h
  | cons t ss => rfl

/-- The pieces of segments with points between them are the pieces of the segments. -/
theorem cut_joined_of_ne_nil {ss : List (List Char)} (h : ss ≠ []) :
    cut (joined ss) = ss.flatMap cut := by
  induction ss with
  | nil => exact absurd rfl h
  | cons s ss ih =>
    by_cases hss : ss = []
    · subst hss
      simp [joined]
    · rw [joined_cons hss, cut_append_point, ih hss, List.flatMap_cons]

theorem joined_append_singleton {ss : List (List Char)} (h : ss ≠ []) (cs : List Char) :
    joined (ss ++ [cs]) = joined ss ++ '.' :: cs := by
  induction ss with
  | nil => exact absurd rfl h
  | cons s ss ih =>
    by_cases hss : ss = []
    · subst hss
      rfl
    · rw [List.cons_append, joined_cons (by simp), joined_cons hss, ih hss, List.append_assoc,
        List.cons_append]

/-- A text is the join of its pieces. -/
theorem joined_cut (cs : List Char) : joined (cut cs) = cs := by
  induction cs with
  | nil => rfl
  | cons c cs ih =>
    rw [cut]
    split
    · next hpoint => rw [joined_cons (cut_ne_nil cs), ih, hpoint, List.nil_append]
    · obtain ⟨s, rest, hcut⟩ := List.exists_cons_of_ne_nil (cut_ne_nil cs)
      rw [hcut] at ih ⊢
      rw [← ih]
      -- the character goes to the first piece, whether others follow or not
      cases rest <;> rfl

/-- A text is its only piece if there is no point in it. -/
theorem cut_eq_singleton_iff {cs : List Char} : cut cs = [cs] ↔ '.' ∉ cs := by
  constructor
  · intro h hpoint
    obtain ⟨as, bs, rfl⟩ := List.append_of_mem hpoint
    have hlength := congrArg List.length h
    have has := List.length_pos_iff.2 (cut_ne_nil as)
    have hbs := List.length_pos_iff.2 (cut_ne_nil bs)
    rw [cut_append_point, List.length_append, List.length_singleton] at hlength
    omega
  · intro h
    induction cs with
    | nil => rfl
    | cons c cs ih =>
      rw [List.mem_cons, not_or] at h
      rw [cut, if_neg (Ne.symm h.1), ih h.2]

/-! ### Segments that are kept -/

theorem length_le_flatMap_cut (ss : List (List Char)) : ss.length ≤ (ss.flatMap cut).length := by
  induction ss with
  | nil => exact Nat.le_refl 0
  | cons s ss ih =>
    have hs := List.length_pos_iff.2 (cut_ne_nil s)
    rw [List.flatMap_cons, List.length_append, List.length_cons]
    omega

/-- No segment is cut if there is no point in any of them. -/
theorem flatMap_cut_eq_self_iff {ss : List (List Char)} :
    ss.flatMap cut = ss ↔ ∀ s ∈ ss, '.' ∉ s := by
  induction ss with
  | nil => simp
  | cons s ss ih =>
    rw [List.forall_mem_cons, ← ih, ← cut_eq_singleton_iff, List.flatMap_cons]
    constructor
    · intro h
      obtain ⟨t, rest, hcut⟩ := List.exists_cons_of_ne_nil (cut_ne_nil s)
      rw [hcut, List.cons_append, List.cons.injEq] at h
      obtain ⟨rfl, hrest⟩ := h
      -- every other segment has a piece of its own, so nothing is left over for this one
      have hlength := congrArg List.length hrest
      have hle := length_le_flatMap_cut ss
      rw [List.length_append] at hlength
      obtain rfl : rest = [] := List.length_eq_zero_iff.1 (by omega)
      exact ⟨hcut, hrest⟩
    · rintro ⟨hs, hss⟩
      rw [hs, hss]
      rfl

/-- Segments are the pieces of their text if there are any, without points in them. -/
theorem cut_joined_eq_self_iff {ss : List (List Char)} :
    cut (joined ss) = ss ↔ ss ≠ [] ∧ ∀ s ∈ ss, '.' ∉ s := by
  by_cases hss : ss = []
  · subst hss
    simp [joined, cut]
  · rw [cut_joined_of_ne_nil hss, flatMap_cut_eq_self_iff]
    simp [hss]

/-! ### Texts and paths -/

theorem ofText_eq_iff {s : String} {p : Path} :
    ofText s = p ↔ cut s.toList = p.segments.map String.toList := by
  constructor
  · rintro rfl
    simp [ofText, Function.comp_def]
  · intro h
    rw [ofText, h]
    simp [Function.comp_def]

theorem text_ofText (s : String) : (ofText s).text = s := by
  rw [text, ← ofText_eq_iff.1 rfl, joined_cut, String.ofList_toList]

theorem ofText_text_iff {p : Path} : ofText p.text = p ↔ p.IsPlain := by
  rw [ofText_eq_iff, text, String.toList_ofList, cut_joined_eq_self_iff, List.forall_mem_map, ne_eq,
    List.map_eq_nil_iff]
  rfl

/-- Every text is the text of the path it stands for.  A path is the one that its text stands for
exactly if it has a segment and there is no point in its segments, so among such paths the text
tells which path it is. -/
theorem text_roundTrip :
    (∀ s, (ofText s).text = s)
      ∧ (∀ p : Path, ofText p.text = p ↔ p.IsPlain)
      ∧ ∀ p q : Path, p.IsPlain → q.IsPlain → p.text = q.text → p = q := by
  refine ⟨text_ofText, fun p => ofText_text_iff, fun p q hp hq htext => ?_⟩
  rw [← ofText_text_iff.2 hp, htext, ofText_text_iff.2 hq]

/-- Empty segments are told from each other, also at the ends, but a point in a segment is not told
from one between two of them. -/
theorem text_roundTrip_emptySegments :
    let p : Path := ⟨["", "b", "", "author", ""]⟩
    let q : Path := ofText ".b..author."
    let r : Path := ⟨["b.author"]⟩
    p.IsPlain ∧ q.IsPlain ∧ p.text = q.text ∧ p = q ∧ ofText r.text ≠ r := by
  intro p q r
  have hp : p.IsPlain := by decide
  have hq : q.IsPlain := by decide +kernel
  have htext : p.text = q.text := by decide +kernel
  refine ⟨hp, hq, htext, text_roundTrip.2.2 p q hp hq htext, fun h => ?_⟩
  exact absurd ((text_roundTrip.2.1 r).1 h) (by decide)

end Path
end PersistenceQuery
