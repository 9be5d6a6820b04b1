import PersistenceQuery.Proofs.Rendering.Stance

/-!
# Spaces in a rendered query

A draft stays neat while emissions are written that may stand where they do: one emission adds its
token, behind one space at most, and the text ends as the stance says.  So the text of a rendered
query with clean names is neat.

## Main definitions

* `Draft.Stands` — the text of a draft is neat and ends as a stance says.

## Main results

* `Draft.Stands.emit`, `Draft.Stands.emitAll` — one emission, and all of them.
* `Query.neatToken_render`, `Query.spaces_render` — where the spaces of a rendered query are.
-/

namespace PersistenceQuery

open Text

/-! ### Tokens -/

theorem isSolidChar_of_isNameChar {c : Char} (h : isNameChar c = true) : isSolidChar c = true :=
  isSolidChar_of_isPathChar (Lexer.isPathChar_of_isNameChar h)

/-- A text that holds no blank, no delimiter and no quote. -/
theorem Text.NeatToken.of_solid {cs : List Char}
    (h : cs.all (fun c => isSolidChar c && isNoQuote c) = true) (hne : cs ≠ []) : NeatToken cs :=
  .of_clear (.of_spelled h) hne

theorem Text.NeatToken.of_nameChars {cs : List Char} (h : cs.all isNameChar = true)
    (hne : cs ≠ []) : NeatToken cs := by
  refine .of_solid (List.all_eq_true.2 fun c hc => ?_) hne
  have hc := List.all_eq_true.1 h c hc
  have hquote : c ≠ '\'' := fun heq => absurd (heq ▸ hc) (by decide)
  simp [isSolidChar_of_isNameChar hc, isNoQuote, hquote]

theorem Text.NeatToken.of_numeral {cs : List Char} (h : cs.all isNumeralChar = true)
    (hne : cs ≠ []) : NeatToken cs := by
  refine .of_solid (List.all_eq_true.2 fun c hc => ?_) hne
  have hquote : c ≠ '\'' := fun heq => absurd (heq ▸ List.all_eq_true.1 h c hc) (by decide)
  simp [List.all_eq_true.1 (solid_of_numeral h) c hc, isNoQuote, hquote]

theorem Text.NeatToken.quote (s : String) : NeatToken (quote s).toList := by
  refine .of_clear (.quote (by decide) s) ?_
  rw [toList_quote]
  exact List.cons_ne_nil _ _

/-- A marker and a quoted text, between braces. -/
theorem Text.NeatToken.markedLiteral {marker : String}
    (hmarker : marker.toList.all isNameChar = true) (hne : marker.toList ≠ []) (s : String) :
    NeatToken (markedLiteral marker s).toList := by
  have hopen : NeatToken ['\x7b'] := by decide
  have hclose : NeatToken ['\x7d'] := by decide
  have hlead := hopen.append (NeatToken.of_nameChars hmarker hne)
  have hquoted := (NeatToken.quote s).append hclose
  simpa [PersistenceQuery.markedLiteral] using hlead.spaced hquoted

theorem Text.NeatToken.placeholder {s : String} (h : isParameterName s = true) :
    NeatToken (placeholder s).toList := by
  have hcolon : NeatToken [':'] := by decide
  rw [PersistenceQuery.placeholder, String.toList_append]
  by_cases hne : s.toList = []
  · rw [hne]
    exact hcolon
  · exact hcolon.append (.of_nameChars (isNameChar_of_isParameterName h) hne)

/-- The literal of a value is a token if the names in it are clean. -/
theorem Value.neatToken_literal {v : Value} {text : String} (h : v.literal = .ok text)
    (hnames : ∀ s ∈ v.names, IsCleanName s) : NeatToken text.toList := by
  have hfirm := Value.isFirm_literal h fun s hs => (hnames s hs).1.2
  have hne : text.toList ≠ [] := by
    intro hnil
    rw [String.toList_eq_nil_iff.1 hnil] at hfirm
    exact absurd hfirm (by decide)
  cases literal_eq_ok_iff.1 h with
  | null => decide
  | bool b => cases b <;> decide
  | int n => exact .of_numeral (numeral_toString n.toInt) hne
  | @float x _ =>
    rw [String.toList_ofList] at hne ⊢
    exact .of_numeral (numeral_floatLiteral x) hne
  | string s => exact .quote s
  | marked hv => cases hv <;> exact .markedLiteral (by decide) (by decide) _
  | enum _ _ =>
    have hclean := all_of_enumNames (p := fun c => isSolidChar c && isNoQuote c) (by decide)
      fun s hs => (hnames s hs).all
    exact .of_solid hclean hne

/-! ### Drafts -/

/-- The text ends as the stance says. -/
def Stance.Ends (cs : List Char) : Stance → Prop
  | opened => cs = [] ∨ cs.getLast? = some '('
  | parted => cs.getLast? = some ' '
  | firm => cs.getLast?.any isTokenLast = true

/-- The text of the draft is neat and ends as the stance says, and only behind a token a space is
pending. -/
structure Draft.Stands (d : Draft) (s : Stance) : Prop where
  neat : Neat d.text.toList
  ends : s.Ends d.text.toList
  pending : d.spacePending = true → s = .firm

namespace Draft.Stands

variable {d : Draft} {s : Stance}

theorem start (b : Binder) : (Draft.start b).Stands .opened := ⟨.nil, .inl rfl, nofun⟩

/-- Behind anything a neat text with a firm head may stand, and a space that is pending in front of
it. -/
theorem neat_append (h : d.Stands s) {cs : List Char} (hcs : Neat cs)
    (hhead : cs.head?.any isFirmHead = true) :
    Neat (d.text.toList ++ (d.gap.toList ++ cs)) := by
  by_cases hpending : d.spacePending = true
  · have hgap : d.gap.toList = [' '] := by rw [Draft.gap, hpending]; rfl
    have hends := h.ends
    rw [h.pending hpending] at hends
    rw [hgap]
    exact h.neat.append_of_last hends (hcs.space_cons hhead)
  · have hgap : d.gap.toList = [] := by rw [Draft.gap, if_neg hpending]; rfl
    rw [hgap, List.nil_append]
    refine h.neat.append hcs fun c hc e he => ?_
    have hends := h.ends
    have hhead : isFirmHead e = true := by rwa [Option.mem_def.1 he] at hhead
    cases s with
    | opened =>
      rcases hends with hnil | hopening
      · rw [hnil] at hc
        cases hc
      · obtain rfl : '(' = c := Option.some.inj (hopening.symm.trans hc)
        exact besides_opening (ne_space_of_not_isBlank (isFirmHead_iff.1 hhead).1)
    | parted =>
      obtain rfl : ' ' = c := Option.some.inj (hends.symm.trans hc)
      exact besides_space hhead
    | firm =>
      rw [Stance.Ends, Option.mem_def.1 hc] at hends
      exact besides_of_isTokenLast hends e

/-- A token may stand behind anything. -/
theorem token (h : d.Stands s) {t : String} (ht : NeatToken t.toList) :
    (d.write t).Stands .firm := by
  have hstarts : startsFirm t = true := ht.head
  have htext : (d.write t).text.toList = d.text.toList ++ (d.gap.toList ++ t.toList) := by
    rw [Draft.text_write_of_startsFirm d hstarts, String.toList_append, String.toList_append,
      List.append_assoc]
  refine ⟨?_, ?_, nofun⟩
  · rw [htext]
    exact h.neat_append ht.toNeat ht.head
  · rw [htext]
    exact any_getLast?_append _ (any_getLast?_append _ ht.last)

theorem opening (h : d.Stands s) : (d.write "(").Stands .opened := by
  have htext : (d.write "(").text.toList = d.text.toList ++ (d.gap.toList ++ ['(']) := by
    rw [Draft.text_write_of_startsFirm d (by decide), String.toList_append, String.toList_append,
      List.append_assoc]
    rfl
  refine ⟨?_, .inr ?_, nofun⟩
  · rw [htext]
    exact h.neat_append (by decide) (by decide)
  · rw [htext, ← List.append_assoc, List.getLast?_concat]

/-- A closing parenthesis may stand behind anything but a separator. -/
theorem closing (h : d.Stands s) (hs : s ≠ .parted) : (d.write ")").Stands .firm := by
  have htext : (d.write ")").text.toList = d.text.toList ++ [')'] := by
    rw [Draft.text_write_of_standsClose d (by decide), String.toList_append]
    rfl
  refine ⟨?_, ?_, nofun⟩
  · rw [htext]
    refine h.neat.append (by decide) fun c hc e he => ?_
    obtain rfl : ')' = e := by simpa using he
    have hends := h.ends
    cases s with
    | opened =>
      rcases hends with hnil | hopening
      · rw [hnil] at hc
        cases hc
      · obtain rfl : '(' = c := Option.some.inj (hopening.symm.trans hc)
        decide
    | parted => exact absurd rfl hs
    | firm =>
      rw [Stance.Ends, Option.mem_def.1 hc] at hends
      exact besides_of_isTokenLast hends _
  · rw [htext]
    exact any_getLast?_append _ rfl

/-- A separator may stand behind a token. -/
theorem separator (h : d.Stands .firm) {w : String} (hw : isSeparator w = true) :
    (d.write w).Stands .parted := by
  have hseparators : standsClose w = true ∧ Neat w.toList ∧ w.toList.getLast? = some ' ' := by
    have hall : ∀ w ∈ [", ", " AND ", " OR "],
        standsClose w = true ∧ Neat w.toList ∧ w.toList.getLast? = some ' ' := by decide
    exact hall w (List.contains_iff_mem.1 hw)
  obtain ⟨hclose, hneat, hlast⟩ := hseparators
  have htext : (d.write w).text.toList = d.text.toList ++ w.toList := by
    rw [Draft.text_write_of_standsClose d hclose, String.toList_append]
  refine ⟨?_, ?_, nofun⟩
  · rw [htext]
    exact h.neat.append_of_last h.ends hneat
  · rw [htext, Stance.Ends, List.getLast?_append, hlast]
    rfl

/-- A space is asked for behind a token only. -/
theorem space (h : d.Stands s) : d.space.Stands s := by
  rw [Draft.space]
  split
  · exact h
  · next hrefuses =>
    -- a text that takes a space is not empty and ends in no opening parenthesis and no space
    refine ⟨h.neat, h.ends, fun _ => ?_⟩
    have hends := h.ends
    rw [refusesSpace, String.back?_eq] at hrefuses
    cases s with
    | opened =>
      rcases hends with hnil | hopening
      · simp [hnil] at hrefuses
      · simp [hopening] at hrefuses
    | parted =>
      have hlast : d.text.toList.getLast? = some ' ' := hends
      simp [hlast] at hrefuses
    | firm => rfl

/-- The token of a value or parameter that a binder gives. -/
theorem bound (h : d.Stands s) {d' : Draft} {answer : Except Fault String × Binder}
    (ht : ∀ token b, answer = (.ok token, b) → NeatToken token.toList)
    (hemit : d.bound answer = (d', none)) : d'.Stands .firm := by
  rcases answer with ⟨fault | token, b⟩
  · cases hemit
  · cases hemit
    have hd : ({ d with binder := b } : Draft).Stands s := ⟨h.neat, h.ends, h.pending⟩
    exact hd.token (ht token b rfl)

/-- An emission that may stand where it does leaves a draft that stands as the emission says. -/
theorem emit (h : d.Stands s) {e : Emission} {t : Stance} (he : e.stance? s = some t) {d' : Draft}
    (hemit : d.emit e = (d', none)) : d'.Stands t := by
  cases e with
  | word w =>
    cases hemit
    rw [Emission.stance?] at he
    split at he
    · next hw =>
      split at he
      · next hfirm =>
        cases he
        subst hfirm
        exact h.separator hw
      · cases he
    · split at he
      · next hw =>
        cases he
        exact h.token hw
      · cases he
  | name n =>
    cases hemit
    rw [Emission.stance?] at he
    split at he
    · next hn =>
      cases he
      exact h.token hn
    · cases he
  | quoted q =>
    cases hemit
    cases he
    exact h.token (.quote q)
  | stop f => cases hemit
  | space =>
    cases hemit
    cases he
    exact h.space
  | opening =>
    cases hemit
    cases he
    obtain ⟨hneat, hends, hpending⟩ := h.opening
    exact ⟨hneat, hends, hpending⟩
  | closing =>
    cases hemit
    rw [Emission.stance?] at he
    split at he
    · cases he
    · next hs =>
      cases he
      have hd : ({ d with unclosed := d.unclosed - 1 } : Draft).Stands s :=
        ⟨h.neat, h.ends, h.pending⟩
      exact hd.closing hs
  | value v =>
    rw [Emission.stance?] at he
    split at he
    · next hv =>
      cases he
      refine h.bound (fun token b hr => ?_) hemit
      rcases Binder.register_eq_ok hr with ⟨-, hliteral, -⟩ | ⟨-, rfl, -⟩
      · exact Value.neatToken_literal hliteral hv
      · exact .placeholder (isParameterName_placeholderName _)
    · cases he
  | parameter n embedded =>
    rw [Emission.stance?] at he
    split at he
    · next hn =>
      cases he
      refine h.bound (fun token b hr => ?_) hemit
      rw [Binder.bind] at hr
      cases hvalue : d.binder.valueFor n embedded with
      | none =>
        rw [hvalue] at hr
        cases hr
      | some v =>
        rw [hvalue] at hr
        cases hr
        exact .placeholder hn
    · cases he

/-- So do emissions one after the other. -/
theorem emitAll {es : List Emission} (h : d.Stands s) {t : Stance}
    (hes : stanceAfter? s es = some t) {d' : Draft} (hemit : d.emitAll es = (d', none)) :
    d'.Stands t := by
  induction es generalizing d s with
  | nil =>
    cases hes
    cases hemit
    exact h
  | cons e es ih =>
    obtain ⟨d₁, he, hrest⟩ := Draft.emitAll_cons_eq_none.1 hemit
    rw [stanceAfter?, Option.bind_eq_some_iff] at hes
    obtain ⟨s₁, hs₁, hes⟩ := hes
    exact ih (h.emit hs₁ he) hes hrest

end Draft.Stands

/-! ### Rendered queries -/

/-- A query with clean names is rendered to a neat token. -/
theorem Query.neatToken_render {q : Query} {supplied : Option Bindings} {mode : Mode}
    {r : Rendered} (hnames : ∀ s ∈ q.names, IsCleanName s)
    (hpaths : ∀ p ∈ q.paths, p.segments ≠ [])
    (h : q.render .standard supplied mode = .ok r) : NeatToken r.text.toList := by
  obtain ⟨hshape, -, -⟩ := Query.render_eq_ok.1 h
  obtain ⟨d, hemit, htext, -⟩ := Query.exists_draft_of_render h
  have hstands := (Draft.Stands.start _).emitAll (Query.composes hnames hpaths hshape .opened) hemit
  have hstarts : startsFirm d.text = true := Query.startsFirm_text hemit
  have hlast : d.text.toList.getLast?.any isTokenLast = true := hstands.ends
  have hends : endsFirm d.text = true := by
    rw [Option.any_eq_true] at hlast
    obtain ⟨c, hc, hlast⟩ := hlast
    rw [endsFirm, hc]
    exact (Bool.and_eq_true_iff.1 hlast).1
  rw [htext, trim_of_isFirm (isFirm_iff.2 ⟨hstarts, hends⟩)]
  exact ⟨hstands.neat, hstarts, hlast⟩

/-- Where the spaces of a rendered query are, whatever it quotes: no two of them side by side, none
behind an opening parenthesis and none in front of a closing one or a comma, exactly one behind
every comma, and none at the ends; and there is no other white space. -/
theorem Query.spaces_render {q : Query} {supplied : Option Bindings} {mode : Mode} {r : Rendered}
    (hnames : ∀ s ∈ q.names, s ≠ "" ∧ isSolid s = true ∧ '\'' ∉ s.toList)
    (hpaths : ∀ p ∈ q.paths, p.segments ≠ [])
    (h : q.render .standard supplied mode = .ok r) :
    (∀ pair ∈ [[' ', ' '], ['(', ' '], [' ', ')'], [' ', ',']], ¬ pair <:+: unquoted r.text.toList)
      ∧ (∀ as bs, unquoted r.text.toList = as ++ ',' :: bs →
        ∃ c cs, bs = ' ' :: c :: cs ∧ c ≠ ' ')
      ∧ r.text.toList.head? ≠ some ' ' ∧ r.text.toList.getLast? ≠ some ' '
      ∧ ∀ c ∈ unquoted r.text.toList, isBlank c = true → c = ' ' := by
  have hneat : NeatToken r.text.toList := by
    refine Query.neatToken_render (fun s hs => ?_) hpaths h
    obtain ⟨hne, hsolid, hquote⟩ := hnames s hs
    exact ⟨⟨hne, hsolid⟩, hquote⟩
  refine ⟨?_, ?_, ?_, ?_, hneat.blanks⟩
  · have hpairs : ∀ c d, besides c d = false → ¬ [c, d] <:+: unquoted r.text.toList :=
      fun c d => hneat.toNeat.not_infix
    simp only [List.forall_mem_cons]
    exact ⟨hpairs _ _ rfl, hpairs _ _ rfl, hpairs _ _ rfl, hpairs _ _ rfl, nofun⟩
  · exact fun as bs => hneat.toNeat.exists_of_comma hneat.last
  · intro hhead
    have hfirm := hneat.head
    rw [hhead] at hfirm
    exact absurd hfirm (by decide)
  · intro hlast
    have hfirm := hneat.last
    rw [hlast] at hfirm
    exact absurd hfirm (by decide)

/-- A choice without arms in a condition, a condition on null in front of a separator and behind
everything, calls without arguments, and a text with spaces in it. -/
def booksByShelf : Query := .select {
  resultType := "Book"
  distinct := true
  items := [.entity ⟨"Book", "b"⟩, .current .date, .function "shelf ,( " []]
  sources := [⟨⟨"Book", "b"⟩, []⟩]
  filter := some (.logical .and [
    .isNull (.choice none [] (some (.literal (.string "on  ( loan )")))) true,
    .inList (.path ⟨["b", "rank"]⟩) [.literal (.int 1), .negate (.literal (.int (-2)))] false,
    .isNull (.path ⟨["b", "returned"]⟩) false])
  groupBy := []
  having := none
  orderBy := [] }

theorem spaces_booksByShelf :
    (∀ s ∈ booksByShelf.names, s ≠ "" ∧ isSolid s = true ∧ '\'' ∉ s.toList)
      ∧ (∀ p ∈ booksByShelf.paths, p.segments ≠ [])
      ∧ ∃ r, booksByShelf.render .standard none .inline = .ok r
        ∧ (∀ pair ∈ [[' ', ' '], ['(', ' '], [' ', ')'], [' ', ',']],
          ¬ pair <:+: unquoted r.text.toList)
        ∧ r.text.toList.head? ≠ some ' ' ∧ r.text.toList.getLast? ≠ some ' ' := by
  have hnames : ∀ s ∈ booksByShelf.names, s ≠ "" ∧ isSolid s = true ∧ '\'' ∉ s.toList := by
    decide +kernel
  have hpaths : ∀ p ∈ booksByShelf.paths, p.segments ≠ [] := by decide +kernel
  obtain ⟨r, hr⟩ := exists_of_isOk (x := booksByShelf.render .standard none .inline)
    (by decide +kernel)
  obtain ⟨hpairs, -, hhead, hlast, -⟩ := Query.spaces_render hnames hpaths hr
  exact ⟨hnames, hpaths, r, hr, hpairs, hhead, hlast⟩

end PersistenceQuery
