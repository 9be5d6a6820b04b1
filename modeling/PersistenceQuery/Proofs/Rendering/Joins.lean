import PersistenceQuery.Proofs.Rendering.Clear
import PersistenceQuery.Proofs.Rendering.Laid

/-!
# Joins in a rendered query

A rendered query names what it joins: `JOIN` is followed by `AS` only where an association is
joined by a path without segments.  The check of the shape asks every segment of such a path not to
be empty, and so lets a path pass that has none.

## Main definitions

* `Joinless` — a text in which `JOIN` is not read.
* `IsOrdinary` — a name of word characters that is not one of the two keywords.
* `HasGap` — `JOIN` is directly followed by `AS`.
* `Join.leavesGap` — a join that writes nothing between the two.

## Main results

* `Query.hasGap_lexemes_render` — a rendered query has a gap exactly where a join leaves one.
* `Query.joins_of_checkShape` — what the check of a query says of its joins, and of its text.
-/

namespace PersistenceQuery

open Text

/-! ### Texts in which no join is read -/

/-- `JOIN` is none of the words that are read. -/
def Joinless (s : String) : Prop := Lexeme.word "JOIN" ∉ lexemes s

/-- A name of letters, digits, underscores and points that is neither `JOIN` nor `AS`. -/
structure IsOrdinary (s : String) : Prop where
  chars : s.toList.all isPathChar = true
  ne_join : s ≠ "JOIN"
  ne_as : s ≠ "AS"

theorem joinless_of_notMem {s : String} (h : 'J' ∉ s.toList) : Joinless s := fun hmem => by
  have hsubset := Lexer.subset_of_word hmem
  exact h (hsubset (by decide))

/-- An ordinary name is read as itself, or as nothing if it is empty. -/
theorem IsOrdinary.lexemes_eq {s : String} (h : IsOrdinary s) :
    lexemes s = if s = "" then [] else [.word s] := by
  split
  · next hempty =>
    rw [hempty]
    rfl
  · next hne =>
    have hread := Lexer.read_word h.chars fun hnil => hne (String.toList_eq_nil_iff.1 hnil)
    rwa [String.ofList_toList] at hread

/-- An ordinary name holds neither quotes nor colons. -/
theorem IsOrdinary.isPlain {s : String} (h : IsOrdinary s) : isPlain s = true :=
  List.all_eq_true.2 fun c hc => by
    have hc := List.all_eq_true.1 h.chars c hc
    have hquote : c ≠ '\'' := fun heq => absurd (heq ▸ hc) (by decide)
    have hcolon : c ≠ ':' := fun heq => absurd (heq ▸ hc) (by decide)
    simp [isPlainChar, hquote, hcolon]

instance (s : String) : Decidable (IsOrdinary s) :=
  decidable_of_iff (s.toList.all isPathChar = true ∧ s ≠ "JOIN" ∧ s ≠ "AS")
    ⟨fun h => ⟨h.1, h.2.1, h.2.2⟩, fun h => ⟨h.chars, h.ne_join, h.ne_as⟩⟩

theorem IsOrdinary.joinless {s : String} (h : IsOrdinary s) : Joinless s := by
  rw [Joinless, h.lexemes_eq]
  split
  · exact List.not_mem_nil
  · simpa using h.ne_join.symm

/-- A text with a point in it is no keyword. -/
theorem isOrdinary_of_point {s : String} (h : s.toList.all isPathChar = true)
    (hpoint : '.' ∈ s.toList) : IsOrdinary s :=
  ⟨h, fun heq => absurd (heq ▸ hpoint) (by decide), fun heq => absurd (heq ▸ hpoint) (by decide)⟩

/-- A path of ordinary names is an ordinary name. -/
theorem isOrdinary_pathText {p : Path} (h : ∀ s ∈ p.segments, IsOrdinary s) :
    IsOrdinary p.text := by
  obtain ⟨segments⟩ := p
  match segments with
  | [] => exact ⟨rfl, by decide, by decide⟩
  | [s] =>
    have hs : (⟨[s]⟩ : Path).text = s := String.ofList_toList
    rw [hs]
    exact h s List.mem_cons_self
  | s :: t :: ss =>
    refine isOrdinary_of_point (all_pathText rfl fun s hs => (h s hs).chars) ?_
    rw [Path.text, String.toList_ofList]
    simp [Path.joined]

theorem joinless_quote (s : String) : Joinless (quote s) := by
  rw [Joinless, lexemes, (Lexer.read_quote s).2]
  simp

theorem joinless_placeholder {s : String} (h : isParameterName s = true) :
    Joinless (placeholder s) := by
  rw [Joinless, lexemes, (read_placeholder h).2]
  simp

/-! ### Tokens -/

/-- A temporal literal is read as its sign and marker, its text and its closing sign. -/
theorem lexemes_markedLiteral {marker : String} (hmarker : isPlain marker = true) (text : String) :
    lexemes (markedLiteral marker text)
      = lexemes ("\x7b" ++ marker ++ " ") ++ [.quoted text, .sign "\x7d"] := by
  have hlead : Lexer.between.after ("\x7b" ++ marker ++ " ").toList = .between := by
    have hout : (Lexer.between.after ("\x7b" ++ marker).toList).isOutside = true := by
      rw [String.toList_append]
      exact Lexer.isOutside_after rfl (Lexer.quote_notMem_of_plain (by
        rw [List.all_append, Bool.and_eq_true]
        exact ⟨by decide, hmarker⟩))
    rw [String.toList_append, Lexer.after_append]
    exact Lexer.step_of_isDelimiter hout rfl
  obtain ⟨hafter, hread⟩ := Lexer.read_quote text
  have hbrace : (Lexer.between.after (quote text).toList).Apart "\x7d".toList := by
    rw [hafter]
    rintro c ⟨⟩
    rfl
  have hquoted : lexemes (quote text ++ "\x7d") = [.quoted text, .sign "\x7d"] := by
    rw [lexemes, String.toList_append, Lexer.read_append hbrace, hread]
    rfl
  rw [markedLiteral, String.append_assoc, ← hquoted, lexemes, String.toList_append,
    Lexer.read_append]
  · rfl
  · rw [hlead]
    exact Lexer.apart_between _

theorem joinless_markedLiteral {marker : String} (hmarker : isPlain marker = true)
    (hjoin : Joinless ("\x7b" ++ marker ++ " ")) (text : String) :
    Joinless (markedLiteral marker text) := by
  rw [Joinless, lexemes_markedLiteral hmarker, List.mem_append, not_or]
  exact ⟨hjoin, by simp⟩

theorem joinless_of_numeral {s : String} (h : s.toList.all isNumeralChar = true) : Joinless s :=
  joinless_of_notMem fun hmem => absurd (List.all_eq_true.1 h _ hmem) (by decide)

/-- No literal is read as a join. -/
theorem Value.joinless_literal {v : Value} {text : String} (h : v.literal = .ok text)
    (hn : ∀ s ∈ v.names, IsOrdinary s) : Joinless text := by
  cases literal_eq_ok_iff.1 h with
  | null => exact joinless_of_notMem (by decide)
  | bool b => cases b <;> exact joinless_of_notMem (by decide)
  | int n => exact joinless_of_numeral (numeral_toString _)
  | float _ =>
    refine joinless_of_numeral ?_
    rw [String.toList_ofList]
    exact numeral_floatLiteral _
  | string s => exact joinless_quote s
  | marked hv =>
    cases hv <;> exact joinless_markedLiteral (by decide) (by unfold Joinless; decide +kernel) _
  | enum _ _ =>
    have hchars := all_of_enumNames rfl fun s hs => (hn s hs).chars
    refine (isOrdinary_of_point hchars ?_).joinless
    simp [String.toList_append]

/-- The names of the emission are ordinary. -/
def Emission.IsOrdinary : Emission → Prop
  | .name s => PersistenceQuery.IsOrdinary s
  | .value v => ∀ s ∈ v.names, PersistenceQuery.IsOrdinary s
  | _ => True

/-- The names in a layout are ordinary if those that are written in it are. -/
theorem Written.isOrdinary_of_mem {es : List Emission} {ns : List Expr}
    (h : Written IsOrdinary es ns) : ∀ e ∈ es, e.IsOrdinary := by
  intro e he
  cases h.pieces e he with
  | value hnames => exact hnames
  | name hname => exact hname
  | path hnames => exact isOrdinary_pathText hnames
  | _ => trivial

/-- The token of an emission that is no join is not read as one. -/
theorem Emission.joinless_token {e : Emission} (h : e.isJoining = false) (hn : e.IsOrdinary)
    (hname : ∀ s v, e = .parameter s v → isParameterName s = true) (b : Binder) :
    Joinless (e.token b) := by
  have hempty : Joinless "" := joinless_of_notMem List.not_mem_nil
  cases e with
  | word w =>
    rw [isJoining, List.contains_eq_mem, decide_eq_false_iff_not] at h
    exact h
  | name s => exact PersistenceQuery.IsOrdinary.joinless hn
  | quoted s => exact joinless_quote s
  | opening => exact joinless_of_notMem (by rw [token_opening]; decide)
  | closing => exact joinless_of_notMem (by rw [token_closing]; decide)
  | value v =>
    rcases token_value_cases b v with ⟨-, hliteral⟩ | ⟨-, htoken⟩ | ⟨-, -, htoken⟩
    · exact Value.joinless_literal hliteral hn
    · rw [htoken]
      exact joinless_placeholder (isParameterName_placeholderName _)
    · rw [htoken]
      exact hempty
  | parameter s v =>
    rcases token_parameter_cases b s v with htoken | htoken
    · rw [htoken]
      exact joinless_placeholder (hname s v rfl)
    · rw [htoken]
      exact hempty
  | _ => exact hempty

/-! ### Gaps -/

/-- `JOIN` is directly followed by `AS`. -/
def HasGap (ls : List Lexeme) : Prop := [.word "JOIN", .word "AS"] <:+: ls

instance (ls : List Lexeme) : Decidable (HasGap ls) :=
  inferInstanceAs (Decidable (_ <:+: _))

section
variable {l : Lexeme} {as bs : List Lexeme}

theorem hasGap_cons_of_ne (h : l ≠ .word "JOIN") : HasGap (l :: bs) ↔ HasGap bs := by
  rw [HasGap, List.infix_cons_iff, List.cons_prefix_cons]
  exact or_iff_right fun hl => h hl.1.symm

/-- Behind lexemes that are no `JOIN`, there is a gap only in what comes next. -/
theorem hasGap_append_of_notMem (h : .word "JOIN" ∉ as) : HasGap (as ++ bs) ↔ HasGap bs := by
  induction as with
  | nil => exact Iff.rfl
  | cons a as ih =>
    rw [List.mem_cons, not_or] at h
    exact (hasGap_cons_of_ne (Ne.symm h.1)).trans (ih h.2)

theorem hasGap_join : HasGap (.word "JOIN" :: bs) ↔ bs.head? = some (.word "AS") ∨ HasGap bs := by
  rw [HasGap, List.infix_cons_iff, List.cons_prefix_cons, and_iff_right rfl]
  refine or_congr_left ?_
  cases bs with
  | nil => simp
  | cons c bs => simp [eq_comm]

end

namespace Join

/-- The join writes nothing between `JOIN` and `AS`. -/
def leavesGap (j : Join) : Prop := j.fetch = false ∧ j.target.text = ""

/-- What is read between the two. -/
def between (j : Join) : List Lexeme :=
  (if j.fetch then [.word "FETCH"] else []) ++ lexemes j.target.text

variable {j : Join}

theorem notMem_between (h : IsOrdinary j.target.text) : .word "JOIN" ∉ j.between := by
  rw [between, List.mem_append, not_or]
  exact ⟨by split <;> simp, h.joinless⟩

/-- The first that is read behind `JOIN` is `AS` if there is nothing between them. -/
theorem head?_between_append (h : IsOrdinary j.target.text) (ls : List Lexeme) :
    (j.between ++ .word "AS" :: ls).head? = some (.word "AS") ↔ j.leavesGap := by
  rw [between, leavesGap, h.lexemes_eq]
  have has := h.ne_as
  cases j.fetch <;> by_cases hempty : j.target.text = "" <;> simp [hempty, has]

/-- What is read of the beginning of a join, and of what follows it. -/
theorem exists_spelled_lead (j : Join) (b : Binder) (es : List Emission) :
    ∃ w, w ≠ "JOIN" ∧ b.spelled (j.lead ++ es)
      = .word w :: .word "JOIN" :: (j.between
        ++ .word "AS" :: (lexemes j.target.label ++ b.spelled es)) := by
  obtain ⟨w, hne, hw⟩ : ∃ w, w ≠ "JOIN" ∧ lexemes j.kind.keyword = [.word w, .word "JOIN"] := by
    cases j.kind with
    | inner => exact ⟨"INNER", by decide, by decide +kernel⟩
    | left => exact ⟨"LEFT", by decide, by decide +kernel⟩
  have hempty : lexemes "" = [] := rfl
  have has : lexemes "AS" = [.word "AS"] := rfl
  have hfetch : lexemes "FETCH" = [.word "FETCH"] := rfl
  have hafter : b.after [] = b := rfl
  refine ⟨w, hne, ?_⟩
  cases hj : j.fetch <;>
    simp [lead, between, hj, hw, Binder.spelled, Emission.token, Emission.request?,
      Emission.keyword, hempty, has, hfetch, hafter]

/-- Where the names of a join are ordinary, there is a gap at its beginning if it leaves one, and
otherwise only in what comes next. -/
theorem hasGap_lead_iff (htext : IsOrdinary j.target.text) (hlabel : IsOrdinary j.target.label)
    (b : Binder) (es : List Emission) :
    HasGap (b.spelled (j.lead ++ es)) ↔ j.leavesGap ∨ HasGap (b.spelled es) := by
  obtain ⟨w, hne, hspelled⟩ := j.exists_spelled_lead b es
  rw [hspelled, hasGap_cons_of_ne (by simpa using hne), hasGap_join, head?_between_append htext,
    hasGap_append_of_notMem (notMem_between htext), hasGap_cons_of_ne (by simp),
    hasGap_append_of_notMem hlabel.joinless]

end Join

/-- A layout that nothing stops has a gap exactly where one of its joins leaves one. -/
theorem Laid.hasGap_iff {es : List Emission} {vs : List Visit} (h : Laid es vs)
    (hstop : ∀ fault, Emission.stop fault ∉ es) (hes : ∀ e ∈ es, e.IsOrdinary)
    (hname : ∀ s v, Emission.parameter s v ∈ es → isParameterName s = true) (b : Binder) :
    HasGap (b.spelled es) ↔ ∃ j ∈ joinsOf vs, j.leavesGap := by
  induction h generalizing b with
  | nothing => simp [Binder.spelled, HasGap]
  | @other e es vs he _ ih =>
    obtain ⟨hordinary, hes⟩ := List.forall_mem_cons.1 hes
    have hjoinless := Emission.joinless_token he hordinary
      (fun s v heq => hname s v (heq ▸ List.mem_cons_self)) b
    rw [Binder.spelled, hasGap_append_of_notMem hjoinless]
    exact ih (fun fault hmem => hstop fault (List.mem_cons_of_mem _ hmem)) hes
      (fun s v hmem => hname s v (List.mem_cons_of_mem _ hmem)) _
  | @visit v es vs hv _ ih =>
    rw [joinsOf, List.filterMap_cons_none hv]
    exact ih hstop hes hname b
  | @join j es vs _ ih =>
    obtain ⟨hlead, hes⟩ := List.forall_mem_append.1 hes
    have htext : IsOrdinary j.target.text := hlead (.name j.target.text) (by simp [Join.lead])
    have hlabel : IsOrdinary j.target.label := hlead (.name j.target.label) (by simp [Join.lead])
    have hjoins : joinsOf (.enter (.join j) :: vs) = j :: joinsOf vs := rfl
    rw [Join.hasGap_lead_iff htext hlabel, hjoins, List.exists_mem_cons_iff]
    exact or_congr_right (ih (fun fault hmem => hstop fault (List.mem_append_right _ hmem)) hes
      (fun s v hmem => hname s v (List.mem_append_right _ hmem)) b)
  | stop fault => exact absurd List.mem_cons_self (hstop fault)

/-! ### Rendered queries -/

/-- A rendered query has a gap exactly where one of its joins leaves one. -/
theorem Query.hasGap_lexemes_render {q : Query} {supplied : Option Bindings} {mode : Mode}
    {r : Rendered} (hnames : ∀ s ∈ q.names, IsOrdinary s)
    (h : q.render .standard supplied mode = .ok r) :
    HasGap (lexemes r.text) ↔ ∃ j ∈ q.joins, j.leavesGap := by
  obtain ⟨hshape, -, hr⟩ := Query.render_eq_ok.1 h
  obtain ⟨d, hemit, -⟩ := Binder.rendered_eq_ok.1 hr
  have hstop := (Draft.binder_of_emitAll hemit).2
  have hwritten := Query.written Dialect.standard_hasWords q hnames
  have hname : ∀ s v, Emission.parameter s v ∈ Dialect.standard.write q.part →
      isParameterName s = true := fun s v hs =>
    Query.isParameterName_of_checkShape hshape (hwritten.mem_of_parameter hs)
  have hplain : Written (fun s => isPlain s = true) (Dialect.standard.write q.part) q.nodes :=
    Query.written Dialect.standard_hasWords q fun s hs => (hnames s hs).isPlain
  rw [Binder.lexemes_rendered hr hplain fun s v hs =>
    Query.isParameterName_of_checkShape hshape hs]
  exact q.laid.hasGap_iff hstop hwritten.isOrdinary_of_mem hname _

/-- In a query that passes the check of its shape, every joined entity has a name and a label, and
every joined association a label and a path without empty segments.  The path is usable if besides
it has a segment, and no points that leave a part of a segment empty; the check does not ask for
that.  So the text names what is joined, with one exception: `JOIN` is directly followed by `AS`
exactly where an association is joined by a path without segments, and not fetched. -/
theorem Query.joins_of_checkShape {q : Query} (h : q.checkShape = .ok ()) :
    (∀ s, q.Selects s → ∀ src ∈ s.sources, ∀ j ∈ src.joins,
      (∀ e, j.target = .entity e → e.name ≠ "" ∧ e.label ≠ "")
        ∧ ∀ path label, j.target = .association path label →
          label ≠ "" ∧ (∀ segment ∈ path.segments, segment ≠ "")
          ∧ (path.IsUsable ↔ path.segments ≠ []
            ∧ ∀ segment ∈ path.segments, ∀ part ∈ Path.cut segment.toList, part ≠ []))
      ∧ ∀ supplied mode r, (∀ s ∈ q.names, IsOrdinary s) →
        q.render .standard supplied mode = .ok r →
        (HasGap (lexemes r.text) ↔ ∃ s, q.Selects s ∧ ∃ src ∈ s.sources, ∃ j ∈ src.joins,
          j.fetch = false ∧ ∃ label, j.target = .association ⟨[]⟩ label) := by
  have hrules : q.KeepsRules := q.checkShape_decides.1.1 h
  refine ⟨fun s hs src hsrc j hj => ?_, fun supplied mode r hnames hr => ?_⟩
  · have hjoin : j.KeepsRules := (hrules.selects s hs).joins src hsrc j hj
    rw [Join.KeepsRules] at hjoin
    refine ⟨fun e htarget => ?_, fun path label htarget => ?_⟩
    · rw [htarget] at hjoin
      exact ⟨hjoin.1.name, hjoin.1.label⟩
    · rw [htarget] at hjoin
      exact ⟨hjoin.2, hjoin.1, Path.isUsable_iff⟩
  · have hgap : ∀ j ∈ q.joins, j.leavesGap
        ↔ j.fetch = false ∧ ∃ label, j.target = .association ⟨[]⟩ label :=
      fun j hj => and_congr_right' (hrules.join hj).text_eq_empty_iff
    rw [Query.hasGap_lexemes_render hnames hr]
    constructor
    · rintro ⟨j, hj, hleaves⟩
      obtain ⟨s, hs, src, hsrc, hjs⟩ := Query.mem_joins_iff.1 hj
      exact ⟨s, hs, src, hsrc, j, hjs, (hgap j hj).1 hleaves⟩
    · rintro ⟨s, hs, src, hsrc, j, hjs, hnamed⟩
      have hj : j ∈ q.joins := Query.mem_joins_iff.2 ⟨s, hs, src, hsrc, hjs⟩
      exact ⟨j, hj, (hgap j hj).2 hnamed⟩

/-- Joins of an entity and of associations, one of them fetched, and one in a subquery. -/
def booksOfTranslators : Query := .select {
  resultType := "Book"
  distinct := false
  items := [.entity ⟨"Book", "b"⟩]
  sources := [⟨⟨"Book", "b"⟩, [
    ⟨.inner, true, .association ⟨["b", "author"]⟩ "a", none⟩,
    ⟨.left, false, .entity ⟨"Review", "r"⟩,
      some (.comparison .eq (.path ⟨["r", "book"]⟩) (.entity ⟨"Book", "b"⟩))⟩]⟩]
  filter := some (.exists {
    resultType := "Translator"
    distinct := false
    items := [.literal (.string "JOIN AS")]
    sources := [⟨⟨"Translator", "t"⟩, [⟨.inner, false, .association ⟨["t", "works"]⟩ "w", none⟩]⟩]
    filter := none
    groupBy := []
    having := none
    orderBy := [] } false)
  groupBy := []
  having := none
  orderBy := [] }

theorem joins_booksOfTranslators :
    booksOfTranslators.checkShape = .ok ()
      ∧ (∀ s ∈ booksOfTranslators.names, IsOrdinary s)
      ∧ (∀ s, booksOfTranslators.Selects s → ∀ src ∈ s.sources, ∀ j ∈ src.joins,
        ∀ e, j.target = .entity e → e.name ≠ "" ∧ e.label ≠ "")
      ∧ ∃ r, booksOfTranslators.render .standard none .inline = .ok r
        ∧ ¬ HasGap (lexemes r.text) := by
  have hshape : booksOfTranslators.checkShape = .ok () := by decide +kernel
  have hnames : ∀ s ∈ booksOfTranslators.names, IsOrdinary s := by decide +kernel
  obtain ⟨r, hr⟩ := exists_of_isOk (x := booksOfTranslators.render .standard none .inline)
    (by decide +kernel)
  obtain ⟨hjoins, hgaps⟩ := Query.joins_of_checkShape hshape
  refine ⟨hshape, hnames, fun s hs src hsrc j hj => (hjoins s hs src hsrc j hj).1, r, hr, ?_⟩
  rw [hgaps none .inline r hnames hr]
  rintro ⟨s, hs, src, hsrc, j, hj, -, label, htarget⟩
  have hmem : j ∈ booksOfTranslators.joins := Query.mem_joins_iff.2 ⟨s, hs, src, hsrc, hj⟩
  have htexts : ∀ j ∈ booksOfTranslators.joins, j.target.text ≠ "" := by decide +kernel
  exact htexts j hmem (by rw [htarget]; rfl)

/-- An association is joined by a path without segments. -/
def booksOfNobody : Query := .select {
  resultType := "Book"
  distinct := false
  items := [.entity ⟨"Book", "b"⟩]
  sources := [⟨⟨"Book", "b"⟩, [⟨.inner, false, .association ⟨[]⟩ "a", none⟩]⟩]
  filter := none
  groupBy := []
  having := none
  orderBy := [] }

/-- The query passes the check, and its text does not name what is joined. -/
theorem hasGap_booksOfNobody :
    booksOfNobody.checkShape = .ok ()
      ∧ ¬ (⟨[]⟩ : Path).IsUsable
      ∧ ∃ r, booksOfNobody.render .standard none .inline = .ok r
        ∧ r.text = "SELECT b FROM Book AS b INNER JOIN AS a" ∧ HasGap (lexemes r.text) := by
  have htext : (booksOfNobody.render .standard none .inline).toOption.map Rendered.text
      = some "SELECT b FROM Book AS b INNER JOIN AS a" := by decide +kernel
  cases hr : booksOfNobody.render .standard none .inline with
  | error fault =>
    rw [hr] at htext
    cases htext
  | ok r =>
    rw [hr] at htext
    have htext : r.text = "SELECT b FROM Book AS b INNER JOIN AS a" := Option.some.inj htext
    refine ⟨by decide +kernel, fun husable => husable.1 rfl, r, rfl, htext, ?_⟩
    rw [htext]
    decide +kernel

end PersistenceQuery
