import PersistenceQuery.Proofs.Printing.Printer
import PersistenceQuery.Proofs.Query.Rules
import PersistenceQuery.Proofs.Rendering.Counterpart
import PersistenceQuery.Proofs.Rendering.Outcome
import PersistenceQuery.Proofs.Rendering.Spacing
import PersistenceQuery.Settings

/-!
# Keywords that are set

Settings that are accepted give a dialect that differs from the standard one in the keywords of
calls only.  So a query is rendered in it exactly if it is rendered in the standard one, its
parameters are bound alike, and its text is the same around the keywords.

## Main definitions

* `Settings.callKeyword` — the keyword of a call under some settings.
* `Mention`, `spelled` — a call in a text with what stands in front of it, and the text with a
  keyword for each of its calls.
* `Abreast` — two drafts that differ in the keywords only.

## Main results

* `Settings.rule?_of_dialect` — the rules under some settings.
* `Counterpart.abreast` — calls written by two dialects keep two drafts abreast.
* `Query.render_settings` — what settings change in a rendered query.
-/

namespace PersistenceQuery

open Text Draft

/-! ### The dialect of some settings -/

namespace Settings

/-- The keyword that is set for a kind; the last entry counts. -/
def keywordFor? (s : Settings) (kind : String) : Option String := s.functions.reverse.lookup kind

/-- The keyword of a call under the settings. -/
def callKeyword (s : Settings) (kind : String) : String :=
  (s.keywordFor? kind).getD (PersistenceQuery.callKeyword kind)

theorem configure_eq_ok {D D' : Dialect} {entry : String × String}
    (h : configure D entry = .ok D') :
    entry.1 ∈ callKeywords.map Prod.fst ∧ D' = D.insert (.call entry.1 entry.2) := by
  unfold configure at h
  split at h
  · cases h
  · next hmem =>
    split at h
    · cases h
    · rw [Bool.not_eq_true, Bool.not_eq_false', List.contains_iff_mem] at hmem
      exact ⟨hmem, (Except.ok.inj h).symm⟩

/-- Entries that are taken into a dialect, one after the other. -/
theorem rule?_foldlM_configure {entries : List (String × String)} {D D' : Dialect}
    (h : entries.foldlM configure D = .ok D') :
    (∀ e ∈ entries, e.1 ∈ callKeywords.map Prod.fst)
      ∧ ∀ kind, D'.rule? kind = match entries.reverse.lookup kind with
        | some w => some (.call kind w)
        | none => D.rule? kind := by
  induction entries generalizing D with
  | nil =>
    obtain rfl := Except.ok.inj h
    exact ⟨fun e he => absurd he List.not_mem_nil, fun kind => rfl⟩
  | cons e entries ih =>
    rw [List.foldlM_cons] at h
    rcases hc : configure D e with fault | D₁
    · rw [hc] at h
      cases h
    · rw [hc] at h
      obtain ⟨hmem, rfl⟩ := configure_eq_ok hc
      obtain ⟨hentries, hrules⟩ := ih h
      refine ⟨List.forall_mem_cons.2 ⟨hmem, hentries⟩, fun kind => ?_⟩
      rw [hrules, List.reverse_cons, List.lookup_append]
      -- a later entry for the kind counts, or else this one
      cases entries.reverse.lookup kind with
      | some w => rfl
      | none =>
        rw [Dialect.insert, Dialect.rule?_register, Option.none_or, Keyed.lookup_cons]
        by_cases hkind : kind = e.1
        · simp [hkind, Rule.kind, Rule.form, Form.kind]
        · simp [hkind, Rule.kind, Rule.form, Form.kind]

variable {s : Settings} {D : Dialect}

/-- A kind has the rule with the keyword that is set for it, or its rule in the standard dialect. -/
theorem rule?_of_dialect (hD : s.dialect = .ok D) (kind : String) :
    D.rule? kind = match s.keywordFor? kind with
      | some w => some (.call kind w)
      | none => Dialect.standard.rule? kind :=
  (rule?_foldlM_configure hD).2 kind

/-- Keywords are set for built-in calls only. -/
theorem mem_callKeywords_of_keywordFor? (hD : s.dialect = .ok D) {kind w : String}
    (h : s.keywordFor? kind = some w) :
    (kind, w) ∈ s.functions ∧ kind ∈ callKeywords.map Prod.fst := by
  obtain ⟨before, behind, hfunctions, -⟩ := List.lookup_eq_some_iff.1 h
  have hmem : (kind, w) ∈ s.functions := by
    rw [← List.mem_reverse, hfunctions]
    exact List.mem_append_right _ List.mem_cons_self
  exact ⟨hmem, (rule?_foldlM_configure hD).1 _ hmem⟩

theorem form?_of_dialect (hD : s.dialect = .ok D) (kind : String) :
    Dialect.standard.form? kind = D.form? kind := by
  rw [Dialect.form?, Dialect.form?, rule?_of_dialect hD]
  cases hk : s.keywordFor? kind with
  | none => rfl
  | some w =>
    obtain ⟨⟨k, w'⟩, hcall, rfl⟩ := List.mem_map.1 (mem_callKeywords_of_keywordFor? hD hk).2
    have hrule := Dialect.standard_rule?_of_mem (Rule.call_mem_standard hcall)
    rw [show (Rule.call k w').kind = k from rfl] at hrule
    rw [hrule]
    rfl

end Settings

theorem callKeyword_eq {kind w : String}
    (h : Dialect.standard.rule? kind = some (.call kind w)) : callKeyword kind = w := by
  have hlookup : ∀ call ∈ callKeywords, callKeyword call.1 = call.2 := by decide
  exact hlookup _ (Rule.mem_callKeywords (Dialect.rule?_ofRules h).1)

theorem Settings.callKeyword_eq {s : Settings} {D : Dialect} (hD : s.dialect = .ok D)
    {kind w : String} (h : D.rule? kind = some (.call kind w)) : s.callKeyword kind = w := by
  rw [Settings.rule?_of_dialect hD] at h
  rw [Settings.callKeyword]
  cases hk : s.keywordFor? kind with
  | some w' =>
    rw [hk] at h
    exact (Rule.call.inj (Option.some.inj h)).2
  | none =>
    rw [hk] at h
    exact PersistenceQuery.callKeyword_eq h

/-! ### The same outcome -/

namespace Counterpart

variable {D E : Dialect} {as bs : List Emission} {ns : List Expr}

/-- Keywords do not fail. -/
theorem findSome?_fault? (h : Counterpart D E as bs ns) (b : Binder) :
    as.findSome? (Emission.fault? b) = bs.findSome? (Emission.fault? b) := by
  induction h with
  | nothing | same e | stop fault ns | construct h | keyword h hD hE => rfl
  | append _ _ iha ihb => rw [List.findSome?_append, List.findSome?_append, iha, ihb]

/-- Two runs bind the same parameters and leave as many parentheses open. -/
theorem emitAll {d d' d₁ d₁' : Draft} (h : Counterpart D E as bs ns)
    (hbinder : d'.binder = d.binder) (hunclosed : d'.unclosed = d.unclosed)
    (ha : d.emitAll as = (d₁, none)) (hb : d'.emitAll bs = (d₁', none)) :
    d₁'.binder = d₁.binder ∧ d₁'.unclosed = d₁.unclosed := by
  induction h generalizing d d' d₁ d₁' with
  | nothing | construct h =>
    cases ha
    cases hb
    exact ⟨hbinder, hunclosed⟩
  | same e =>
    obtain ⟨d₂, ha, hnil⟩ := emitAll_cons_eq_none.1 ha
    obtain ⟨d₂', hb, hnil'⟩ := emitAll_cons_eq_none.1 hb
    cases hnil
    cases hnil'
    rw [binder_of_emit ha, binder_of_emit hb, unclosed_of_emit ha, unclosed_of_emit hb, hbinder,
      hunclosed]
    exact ⟨rfl, rfl⟩
  | stop fault ns => cases ha
  | keyword h hD hE =>
    cases ha
    cases hb
    exact ⟨hbinder, congrArg (· + 1) hunclosed⟩
  | append _ _ iha ihb =>
    obtain ⟨d₂, ha, hc⟩ := emitAll_append_eq_none.1 ha
    obtain ⟨d₂', hb, hd⟩ := emitAll_append_eq_none.1 hb
    obtain ⟨hbinder₂, hunclosed₂⟩ := iha hbinder hunclosed ha hb
    exact ihb hbinder₂ hunclosed₂ hc hd

end Counterpart

/-! ### Texts with their keywords -/

/-- A call in a text. -/
structure Mention where
  /-- The text between the call in front and this one. -/
  before : String
  kind : String

/-- The text around the calls, with a keyword and a parenthesis for each of them, and the text
behind the last. -/
def spelled (keyword : String → String) (mentions : List Mention) (last : String) : String :=
  mentions.foldr (fun m rest => m.before ++ keyword m.kind ++ "(" ++ rest) last

theorem spelled_append (keyword : String → String) (mentions : List Mention) (last s : String) :
    spelled keyword mentions (last ++ s) = spelled keyword mentions last ++ s := by
  induction mentions with
  | nil => rfl
  | cons m mentions ih =>
    rw [spelled, List.foldr_cons]
    show m.before ++ keyword m.kind ++ "(" ++ spelled keyword mentions (last ++ s) = _
    rw [ih, ← String.append_assoc]
    rfl

theorem spelled_concat (keyword : String → String) (mentions : List Mention) (m : Mention) :
    spelled keyword (mentions ++ [m]) ""
      = spelled keyword mentions m.before ++ keyword m.kind ++ "(" := by
  rw [spelled, List.foldr_append, ← spelled_append, ← spelled_append]
  show spelled keyword mentions (m.before ++ keyword m.kind ++ "(" ++ "") = _
  rw [String.append_empty]

/-- A text is trimmed in front of its first call and behind its last only. -/
theorem trim_spelled {keyword : String → String} {mentions : List Mention} {last : String}
    (hstarts : startsFirm (spelled keyword mentions last) = true) :
    String.ofList (trim (spelled keyword mentions last).toList)
      = spelled keyword mentions (String.ofList (trimEnd last.toList)) := by
  have hlast : ∀ c ∈ (spelled keyword mentions "").toList.getLast?, isBlank c = false := by
    rcases List.eq_nil_or_concat mentions with rfl | ⟨ms, m, rfl⟩
    · exact fun c hc => nomatch hc
    · intro c hc
      rw [List.concat_eq_append, spelled_concat, String.toList_append,
        show "(".toList = ['('] from rfl, List.getLast?_concat, Option.mem_some_iff] at hc
      rw [← hc]
      rfl
  have hsplit : spelled keyword mentions last = spelled keyword mentions "" ++ last := by
    rw [← spelled_append, String.empty_append]
  rw [hsplit] at hstarts ⊢
  rw [trim_append hlast hstarts, ← spelled_append, String.empty_append]

/-- Two drafts that differ in the keywords of their calls only, and that take spaces alike. -/
structure Abreast (k k' : String → String) (d d' : Draft) (mentions : List Mention)
    (last : String) : Prop where
  text_eq : d.text = spelled k mentions last
  text_eq' : d'.text = spelled k' mentions last
  pending_eq : d'.spacePending = d.spacePending
  refuses_eq : refusesSpace d'.text = refusesSpace d.text

namespace Abreast

variable {k k' : String → String} {d d' : Draft} {mentions : List Mention} {last : String}

/-- Texts do not depend on parentheses and binders. -/
theorem update (h : Abreast k k' d d' mentions last) (n n' : Nat) (b b' : Binder) :
    Abreast k k' { d with unclosed := n, binder := b } { d' with unclosed := n', binder := b' }
      mentions last :=
  ⟨h.text_eq, h.text_eq', h.pending_eq, h.refuses_eq⟩

theorem gap_eq (h : Abreast k k' d d' mentions last) : d'.gap = d.gap := by
  rw [gap, gap, h.pending_eq]

/-- A token that is the same on both sides. -/
theorem write (h : Abreast k k' d d' mentions last) (token : String) :
    Abreast k k' (d.write token) (d'.write token) mentions (last ++ d.added token) := by
  have hadded : d'.added token = d.added token := by rw [added, added, h.gap_eq]
  refine ⟨?_, ?_, rfl, ?_⟩
  · rw [text_write, h.text_eq, spelled_append]
  · rw [text_write, h.text_eq', hadded, spelled_append]
  · rw [text_write, text_write, hadded]
    exact refusesSpace_append h.refuses_eq _

theorem space (h : Abreast k k' d d' mentions last) :
    Abreast k k' d.space d'.space mentions last := by
  rw [Draft.space, Draft.space, h.refuses_eq]
  split
  · exact h
  · exact ⟨h.text_eq, h.text_eq', rfl, h.refuses_eq⟩

/-- The keywords of a call, and a parenthesis. -/
theorem mention (h : Abreast k k' d d' mentions last) {kind : String}
    (hk : startsFirm (k kind) = true) (hk' : startsFirm (k' kind) = true) :
    Abreast k k' ((d.write (k kind)).write "(") ((d'.write (k' kind)).write "(")
      (mentions ++ [⟨last ++ d.gap, kind⟩]) "" := by
  have hopening : ∀ (d : Draft) (w : String),
      ((d.write w).write "(").text = (d.write w).text ++ "(" := fun d w => by
    rw [text_write, added, show (d.write w).gap = "" from rfl, String.empty_append, ite_self]
  have hrefuses : ∀ s : String, refusesSpace (s ++ "(") = true := fun s => by
    rw [refusesSpace, String.back?_eq, String.toList_append, show "(".toList = ['('] from rfl,
      List.getLast?_concat]
    rfl
  refine ⟨?_, ?_, rfl, ?_⟩
  · rw [hopening, text_write_of_startsFirm d hk, h.text_eq, spelled_concat, spelled_append]
  · rw [hopening, text_write_of_startsFirm d' hk', h.text_eq', h.gap_eq, spelled_concat,
      spelled_append]
  · rw [hopening, hopening, hrefuses, hrefuses]

end Abreast

/-- Calls written by two dialects keep two drafts abreast, and each of them is mentioned. -/
theorem Counterpart.abreast {D E : Dialect} {as bs : List Emission} {ns : List Expr}
    {k k' : String → String} (h : Counterpart D E as bs ns)
    (hk : ∀ kind w, D.rule? kind = some (.call kind w) → k kind = w ∧ startsFirm w = true)
    (hk' : ∀ kind w, E.rule? kind = some (.call kind w) → k' kind = w ∧ startsFirm w = true)
    {d d' d₁ d₁' : Draft} {mentions : List Mention} {last : String}
    (hd : Abreast k k' d d' mentions last) (hbinder : d'.binder = d.binder)
    (hunclosed : d'.unclosed = d.unclosed)
    (ha : d.emitAll as = (d₁, none)) (hb : d'.emitAll bs = (d₁', none)) :
    ∃ mentions₁ last₁, Abreast k k' d₁ d₁' mentions₁ last₁
      ∧ mentions₁.map Mention.kind = mentions.map Mention.kind ++ ns.filterMap Expr.callKind? := by
  induction h generalizing d d' d₁ d₁' mentions last with
  | nothing =>
    cases ha
    cases hb
    exact ⟨mentions, last, hd, (List.append_nil _).symm⟩
  | construct h =>
    cases ha
    cases hb
    exact ⟨mentions, last, hd, by rw [List.filterMap_cons_none h]; exact (List.append_nil _).symm⟩
  | stop fault ns => cases ha
  | same e =>
    obtain ⟨d₂, ha, hnil⟩ := emitAll_cons_eq_none.1 ha
    obtain ⟨d₂', hb, hnil'⟩ := emitAll_cons_eq_none.1 hb
    cases hnil
    cases hnil'
    -- the binders are the same, and so is the token that they give
    rw [eq_of_emit ha, eq_of_emit hb, hbinder]
    by_cases he : e = .space
    · rw [if_pos he, if_pos he]
      exact ⟨mentions, last, hd.space.update .., (List.append_nil _).symm⟩
    · rw [if_neg he, if_neg he]
      exact ⟨mentions, _, (hd.write _).update .., (List.append_nil _).symm⟩
  | @keyword e kind w w' h hD hE =>
    obtain ⟨rfl, hfirm⟩ := hk kind w hD
    obtain ⟨rfl, hfirm'⟩ := hk' kind w' hE
    cases ha
    cases hb
    refine ⟨_, "", (hd.mention hfirm hfirm').update .., ?_⟩
    rw [List.map_append, List.filterMap_cons_some h]
    rfl
  | append ha' _ iha ihb =>
    obtain ⟨d₂, ha, hc⟩ := emitAll_append_eq_none.1 ha
    obtain ⟨d₂', hb, hd'⟩ := emitAll_append_eq_none.1 hb
    obtain ⟨hbinder₂, hunclosed₂⟩ := ha'.emitAll hbinder hunclosed ha hb
    obtain ⟨ms, last₁, habreast, hms⟩ := iha hd hbinder hunclosed ha hb
    obtain ⟨ns, last₂, habreast, hns⟩ := ihb habreast hbinder₂ hunclosed₂ hc hd'
    refine ⟨ns, last₂, habreast, ?_⟩
    rw [hns, hms, List.filterMap_append, List.append_assoc]

/-! ### Rendered queries -/

theorem startsFirm_of_standard {kind w : String}
    (h : Dialect.standard.rule? kind = some (.call kind w)) : startsFirm w = true := by
  have hcalls : ∀ call ∈ callKeywords, startsFirm call.2 = true := by decide
  exact hcalls (kind, w) (Rule.mem_callKeywords (Dialect.rule?_ofRules h).1)

theorem Settings.startsFirm_of_dialect {s : Settings} {D : Dialect} (hD : s.dialect = .ok D)
    (hfirm : ∀ e ∈ s.functions, startsFirm e.2 = true) {kind w : String}
    (h : D.rule? kind = some (.call kind w)) : startsFirm w = true := by
  rw [Settings.rule?_of_dialect hD] at h
  cases hk : s.keywordFor? kind with
  | some w' =>
    rw [hk] at h
    obtain ⟨-, rfl⟩ := Rule.call.inj (Option.some.inj h)
    exact hfirm (kind, w') (Settings.mem_callKeywords_of_keywordFor? hD hk).1
  | none =>
    rw [hk] at h
    exact startsFirm_of_standard h

/-- A query is written under settings as in the standard dialect, but for keywords. -/
theorem Query.counterpart_settings {s : Settings} {D : Dialect} (hD : s.dialect = .ok D)
    (q : Query) :
    Counterpart .standard D (Dialect.standard.write q.part) (D.write q.part) q.nodes :=
  Query.counterpart fun p _ => Settings.form?_of_dialect hD p.kind

/-- Under settings the same fault stops the writing of a query. -/
theorem Query.rendered_settings_of_error {q : Query} {s : Settings} {D : Dialect}
    (hD : s.dialect = .ok D) {b : Binder} {fault : Fault}
    (h : b.rendered (Dialect.standard.write q.part) = .error fault) :
    b.rendered (D.write q.part) = .error fault := by
  have houtcome := q.rendered_outcome Dialect.standard_hasWords b
  cases hfault : q.parts.findSome? (Part.fault? .standard b) with
  | none =>
    rw [hfault] at houtcome
    obtain ⟨r, hr⟩ := houtcome
    rw [hr] at h
    cases h
  | some f =>
    rw [hfault] at houtcome
    obtain rfl := Except.error.inj (houtcome.symm.trans h)
    have hemit := Draft.snd_emitAll (D.write q.part) (Draft.start b)
    rw [← (q.counterpart_settings hD).findSome?_fault?, show (Draft.start b).binder = b from rfl,
      Query.findSome?_write, hfault] at hemit
    have hrun : (Draft.start b).emitAll (D.write q.part)
        = (((Draft.start b).emitAll (D.write q.part)).1, some f) := Prod.ext rfl hemit
    rw [Binder.rendered, hrun]

/-- A query that is written in the standard dialect is written under settings. -/
theorem Query.exists_emitAll_settings {q : Query} {s : Settings} {D : Dialect}
    (hD : s.dialect = .ok D) {b : Binder} {d : Draft}
    (h : (Draft.start b).emitAll (Dialect.standard.write q.part) = (d, none)) :
    ∃ d', (Draft.start b).emitAll (D.write q.part) = (d', none) ∧ d'.binder = d.binder
      ∧ d'.unclosed = d.unclosed
      ∧ ((∀ e ∈ s.functions, startsFirm e.2 = true) → ∃ mentions last,
        Abreast callKeyword s.callKeyword d d' mentions last
          ∧ mentions.map Mention.kind = q.nodes.filterMap Expr.callKind?) := by
  have hwritten := q.counterpart_settings hD
  have hfault := Draft.snd_emitAll (D.write q.part) (Draft.start b)
  rw [← hwritten.findSome?_fault?, ← Draft.snd_emitAll, h] at hfault
  have h' : (Draft.start b).emitAll (D.write q.part)
      = (((Draft.start b).emitAll (D.write q.part)).1, none) := Prod.ext rfl hfault
  obtain ⟨hbinder, hunclosed⟩ := hwritten.emitAll rfl rfl h h'
  refine ⟨_, h', hbinder, hunclosed, fun hfirm => ?_⟩
  have hstart : Abreast callKeyword s.callKeyword (Draft.start b) (Draft.start b) [] "" :=
    ⟨rfl, rfl, rfl, rfl⟩
  exact hwritten.abreast (fun kind w hr => ⟨callKeyword_eq hr, startsFirm_of_standard hr⟩)
    (fun kind w hr => ⟨Settings.callKeyword_eq hD hr, Settings.startsFirm_of_dialect hD hfirm hr⟩)
    hstart rfl rfl h h'

/-- An identifier begins with a character that takes a space in front of it. -/
theorem startsFirm_of_isIdentifier {s : String} (h : IsIdentifier s) : startsFirm s = true := by
  rw [← isParameterName_iff] at h
  have hsolid : isSolid s = true := by
    refine List.all_eq_true.2 fun c hc => ?_
    have hname := List.all_eq_true.1 (isNameChar_of_isParameterName h) c hc
    exact isSolidChar_of_isPathChar (Lexer.isPathChar_of_isNameChar hname)
  have hne : s ≠ "" := by
    rintro rfl
    cases h
  exact (isFirm_iff.1 (isFirm_of_isSolid hsolid hne)).1

/-- Under settings a query fails with the fault with which it fails in the standard dialect. -/
theorem Query.render_settings_of_error {q : Query} {s : Settings} {D : Dialect}
    (hD : s.dialect = .ok D) {supplied : Option Bindings} {mode : Mode} {fault : Fault}
    (h : q.render .standard supplied mode = .error fault) :
    q.render D supplied mode = .error fault := by
  unfold Query.render at h ⊢
  cases hshape : q.checkShape with
  | error cause => rwa [hshape] at h
  | ok u =>
    rw [hshape] at h
    cases hbound : q.checkBindings supplied with
    | error f => rwa [hbound] at h
    | ok u =>
      rw [hbound] at h
      exact Query.rendered_settings_of_error hD h

/-- A query that is rendered in the standard dialect is rendered under settings, with the same
bindings and the same text around the keywords. -/
theorem Query.exists_render_settings {q : Query} {s : Settings} {D : Dialect}
    (hD : s.dialect = .ok D) {supplied : Option Bindings} {mode : Mode} {r : Rendered}
    (h : q.render .standard supplied mode = .ok r) :
    ∃ r', q.render D supplied mode = .ok r' ∧ r'.bindings = r.bindings
      ∧ ((∀ e ∈ s.functions, startsFirm e.2 = true) → ∃ mentions last,
        mentions.map Mention.kind = q.nodes.filterMap Expr.callKind?
          ∧ r.text = spelled callKeyword mentions last
          ∧ r'.text = spelled s.callKeyword mentions last) := by
  obtain ⟨hshape, hbound, hrendered⟩ := Query.render_eq_ok.1 h
  obtain ⟨d, hemit, hfinish⟩ := Binder.rendered_eq_ok.1 hrendered
  obtain ⟨hunclosed, -, htext, hbindings⟩ := Draft.finish_eq_ok.1 hfinish
  obtain ⟨d', hemit', hbinder, hunclosed', habreast⟩ := Query.exists_emitAll_settings hD hemit
  have hstarts := Query.startsFirm_text hemit
  have hstarts' := Query.startsFirm_text hemit'
  refine ⟨⟨String.ofList (trim d'.text.toList), d'.binder.bound⟩, ?_, ?_, fun hfirm => ?_⟩
  · have hfinish' := Draft.finish_eq_ok.2
      ⟨hunclosed'.trans hunclosed, trim_ne_nil hstarts', rfl, rfl⟩
    exact Query.render_eq_ok.2 ⟨hshape, hbound, Binder.rendered_eq_ok.2 ⟨d', hemit', hfinish'⟩⟩
  · rw [hbindings, hbinder]
  · obtain ⟨mentions, last, habreast, hmentions⟩ := habreast hfirm
    rw [habreast.text_eq] at hstarts
    rw [habreast.text_eq'] at hstarts'
    refine ⟨mentions, String.ofList (trimEnd last.toList), hmentions, ?_, ?_⟩
    · rw [htext, habreast.text_eq]
      exact trim_spelled hstarts
    · show String.ofList (trim d'.text.toList) = _
      rw [habreast.text_eq']
      exact trim_spelled hstarts'

/-- Settings change keywords only.  A query is rendered under them exactly if it is rendered in the
standard dialect, with the same bindings, and with the same fault otherwise.  If every keyword that
is set begins with a character that takes a space in front of it, as identifiers do, the two texts
are the same but for the keywords of the calls, which are mentioned in the order of their nodes. -/
theorem Query.render_settings {s : Settings} {D : Dialect} (hD : s.dialect = .ok D) (q : Query)
    (supplied : Option Bindings) (mode : Mode) :
    (∀ fault, q.render D supplied mode = .error fault
        ↔ q.render .standard supplied mode = .error fault)
      ∧ ∀ r, q.render .standard supplied mode = .ok r →
        ∃ r', q.render D supplied mode = .ok r' ∧ r'.bindings = r.bindings
          ∧ ((∀ e ∈ s.functions, startsFirm e.2 = true) → ∃ mentions last,
            mentions.map Mention.kind = q.nodes.filterMap Expr.callKind?
              ∧ r.text = spelled callKeyword mentions last
              ∧ r'.text = spelled s.callKeyword mentions last) := by
  refine ⟨fun fault => ⟨fun h => ?_, Query.render_settings_of_error hD⟩,
    fun r => Query.exists_render_settings hD⟩
  cases hr : q.render .standard supplied mode with
  | error f => rw [← h, Query.render_settings_of_error hD hr]
  | ok r =>
    obtain ⟨r', hr', -⟩ := Query.exists_render_settings hD hr
    rw [hr'] at h
    cases h

/-- Calls inside calls, one of them a node of its own kind that is a built-in one. -/
def authorsByName : Query := .select {
  resultType := "Author"
  distinct := false
  items := [.variadic .concat [.unary .lower (.path ⟨["a", "first"]⟩),
    .custom "upper" [.path ⟨["a", "last"]⟩]]]
  sources := [⟨⟨"Author", "a"⟩, []⟩]
  filter := some (.comparison .gt (.unary .length (.path ⟨["a", "last"]⟩)) (.literal (.int 2)))
  groupBy := []
  having := none
  orderBy := [] }

theorem render_settings_authorsByName :
    let s : Settings := ⟨.inline, [("concat", "JOIN"), ("upper", "UCASE")]⟩
    (∀ e ∈ s.functions, IsIdentifier e.2)
      ∧ ∃ D r r' mentions last, s.dialect = .ok D
        ∧ authorsByName.render .standard none .inline = .ok r
        ∧ authorsByName.render D none .inline = .ok r'
        ∧ mentions.map Mention.kind = ["concat", "lower", "upper", "length"]
        ∧ r.text = spelled callKeyword mentions last
        ∧ r'.text = spelled s.callKeyword mentions last := by
  intro s
  have hnames : ∀ e ∈ s.functions, IsIdentifier e.2 := by decide
  have hkinds : authorsByName.nodes.filterMap Expr.callKind?
      = ["concat", "lower", "upper", "length"] := rfl
  obtain ⟨D, hD⟩ := exists_of_isOk (x := s.dialect) (by decide +kernel)
  obtain ⟨r, hr⟩ := exists_of_isOk (x := authorsByName.render .standard none .inline)
    (by decide +kernel)
  obtain ⟨r', hr', -, htexts⟩ := (authorsByName.render_settings hD none .inline).2 r hr
  obtain ⟨mentions, last, hmentions, htext, htext'⟩ := htexts fun e he =>
    startsFirm_of_isIdentifier (hnames e he)
  exact ⟨hnames, D, r, r', mentions, last, hD, hr, hr', hmentions.trans hkinds, htext, htext'⟩

end PersistenceQuery
