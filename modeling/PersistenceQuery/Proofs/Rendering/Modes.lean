import PersistenceQuery.Proofs.Rendering.Outcome
import PersistenceQuery.Proofs.Rendering.Spacing

/-!
# The two modes

A query that is written with its literals inline can be written with placeholders, and nothing but
the tokens of the literals differs.  The two writings are followed side by side: their texts are
the same pieces around the same holes, and every decision about a space comes out the same.

## Main definitions

* `Hole`, `filled` — a literal in a text with what stands in front of it, and the text with its
  holes filled in some way.
* `Alike`, `Partners`, `Lockstep` — two texts, two binders, and two drafts, that differ in the holes
  only.

## Main results

* `Draft.exists_emit_placeholder`, `Draft.exists_emitAll_placeholder` — one emission, and a list of
  them, keep two drafts side by side.
* `Query.exists_holes` — the two renderings of a query differ in the literals only.
-/

namespace PersistenceQuery

open Text Draft

/-- A literal in a text. -/
structure Hole where
  /-- The text between the literal in front and this one. -/
  before : String
  value : Value
  /-- What stands for the value where it is written inline. -/
  literal : String
  /-- The parameter that the value is bound to otherwise. -/
  name : String

/-- The text around the holes, each of them filled, and the text behind the last. -/
def filled (fill : Hole → String) (holes : List Hole) (last : String) : String :=
  holes.foldr (fun h rest => h.before ++ fill h ++ rest) last

theorem filled_append (fill : Hole → String) (holes : List Hole) (last s : String) :
    filled fill holes (last ++ s) = filled fill holes last ++ s := by
  induction holes with
  | nil => rfl
  | cons h holes ih =>
    rw [filled, List.foldr_cons]
    show h.before ++ fill h ++ filled fill holes (last ++ s) = _
    rw [ih, ← String.append_assoc]
    rfl

theorem filled_concat (fill : Hole → String) (holes : List Hole) (h : Hole) (last : String) :
    filled fill (holes ++ [h]) last = filled fill holes (h.before ++ fill h) ++ last := by
  rw [filled, List.foldr_append, ← filled_append]
  rfl

/-! ### Texts side by side -/

/-- Two drafts that differ in the holes only, and that take spaces alike. -/
structure Alike (d d' : Draft) (holes : List Hole) (last : String) : Prop where
  text_inline : d.text = filled Hole.literal holes last
  text_placeholder : d'.text = filled (fun h => placeholder h.name) holes last
  pending_eq : d'.spacePending = d.spacePending
  refuses_eq : refusesSpace d'.text = refusesSpace d.text

namespace Alike

variable {d d' : Draft} {holes : List Hole} {last : String}

/-- Texts do not depend on parentheses and binders. -/
theorem update (h : Alike d d' holes last) (k k' : Nat) (b b' : Binder) :
    Alike { d with unclosed := k, binder := b } { d' with unclosed := k', binder := b' } holes
      last :=
  ⟨h.text_inline, h.text_placeholder, h.pending_eq, h.refuses_eq⟩

/-- A token that is the same on both sides. -/
theorem write (h : Alike d d' holes last) (token : String) :
    Alike (d.write token) (d'.write token) holes (last ++ d.added token) := by
  have hadded : d'.added token = d.added token := by rw [added, added, gap, gap, h.pending_eq]
  refine ⟨?_, ?_, rfl, ?_⟩
  · rw [text_write, h.text_inline, filled_append]
  · rw [text_write, h.text_placeholder, hadded, filled_append]
  · rw [text_write, text_write, hadded]
    exact refusesSpace_append h.refuses_eq _

/-- A literal on one side, and a placeholder on the other. -/
theorem hole (h : Alike d d' holes last) {v : Value} {literal name : String}
    (hliteral : isFirm literal = true) (hname : isFirm (placeholder name) = true) :
    Alike (d.write literal) (d'.write (placeholder name))
      (holes ++ [⟨last ++ d.gap, v, literal, name⟩]) "" := by
  have hgap : d'.gap = d.gap := by rw [gap, gap, h.pending_eq]
  refine ⟨?_, ?_, rfl, ?_⟩
  · rw [text_write_of_startsFirm d (isFirm_iff.1 hliteral).1, h.text_inline, filled_concat,
      filled_append, filled_append, String.append_empty]
  · rw [text_write_of_startsFirm d' (isFirm_iff.1 hname).1, h.text_placeholder, hgap,
      filled_concat, filled_append, filled_append, String.append_empty]
  · rw [text_write_of_startsFirm d (isFirm_iff.1 hliteral).1,
      text_write_of_startsFirm d' (isFirm_iff.1 hname).1,
      refusesSpace_of_endsFirm (endsFirm_append _ (isFirm_iff.1 hliteral).2),
      refusesSpace_of_endsFirm (endsFirm_append _ (isFirm_iff.1 hname).2)]

theorem space (h : Alike d d' holes last) : Alike d.space d'.space holes last := by
  rw [Draft.space, Draft.space, h.refuses_eq]
  split
  · exact h
  · exact ⟨h.text_inline, h.text_placeholder, rfl, h.refuses_eq⟩

end Alike

/-! ### Binders side by side -/

/-- Two binders of which one writes literals inline and the other binds them: they have bound the
same named parameters, and the other one the holes besides. -/
structure Partners (names : List String) (b b' : Binder) (holes : List Hole) : Prop where
  inline : b.mode = .inline
  placeholder : b'.mode = .placeholder
  valueFor_eq : b'.valueFor = b.valueFor
  subset_reserved : names ⊆ b'.reserved
  named_eq : b.bound.entries = b'.bound.entries.filter (·.1 ∈ names)
  generated_eq : b'.bound.entries.filter (·.1 ∉ names) = holes.map fun h => (h.name, h.value)

namespace Partners

variable {names : List String} {b b' b₁ : Binder} {holes : List Hole}

/-- A named parameter is bound on both sides, or on neither. -/
theorem contains_eq (h : Partners names b b' holes) {name : String} (hname : name ∈ names) :
    b'.bound.contains name = b.bound.contains name := by
  have hiff : name ∈ b'.bound.names ↔ name ∈ b.bound.names := by
    rw [Bindings.names, Bindings.names, h.named_eq, List.mem_map, List.mem_map]
    constructor
    · rintro ⟨e, he, rfl⟩
      exact ⟨e, List.mem_filter.2 ⟨he, decide_eq_true hname⟩, rfl⟩
    · rintro ⟨e, he, rfl⟩
      exact ⟨e, (List.mem_filter.1 he).1, rfl⟩
  rw [Bool.eq_iff_iff, Bindings.contains_iff, Bindings.contains_iff]
  exact hiff

/-- A named parameter has the same token on both sides. -/
theorem bind (h : Partners names b b' holes) {name token : String} {embedded : Option Value}
    (hname : name ∈ names) (hb : b.bind name embedded = (.ok token, b₁)) :
    ∃ b₁', b'.bind name embedded = (.ok token, b₁') ∧ Partners names b₁ b₁' holes := by
  rw [Binder.bind] at hb ⊢
  rw [h.valueFor_eq, h.contains_eq hname]
  cases hvalue : b.valueFor name embedded with
  | none =>
    rw [hvalue] at hb
    cases hb
  | some value =>
    simp only [hvalue, Prod.mk.injEq, Except.ok.injEq] at hb ⊢
    obtain ⟨rfl, rfl⟩ := hb
    refine ⟨_, ⟨rfl, rfl⟩, ?_⟩
    by_cases hold : b.bound.contains name = true
    · simpa [hold] using h
    · have hnew : name ∉ b.bound.names := fun hmem => hold (Bindings.contains_iff.2 hmem)
      have hnew' : name ∉ b'.bound.names := fun hmem => by
        rw [← Bindings.contains_iff, h.contains_eq hname] at hmem
        exact hold hmem
      simp only [hold, if_false, Bool.false_eq_true]
      refine ⟨h.inline, h.placeholder, h.valueFor_eq, h.subset_reserved, ?_, ?_⟩
      · rw [Bindings.entries_set_of_notMem hnew, Bindings.entries_set_of_notMem hnew',
          List.filter_append, h.named_eq]
        simp [hname]
      · rw [Bindings.entries_set_of_notMem hnew', List.filter_append, h.generated_eq]
        simp [hname]

/-- A literal is written on one side and bound on the other, under a name that is new. -/
theorem register (h : Partners names b b' holes) {v : Value} {token : String}
    (hb : b.register v = (.ok token, b₁)) :
    v.literal = .ok token ∧ ∃ name b₁', isParameterName name = true
      ∧ b'.register v = (.ok (PersistenceQuery.placeholder name), b₁')
      ∧ ∀ before, Partners names b₁ b₁' (holes ++ [⟨before, v, token, name⟩]) := by
  rcases Binder.register_eq_ok hb with ⟨-, hliteral, rfl⟩ | ⟨hmode, -, -⟩
  · refine ⟨hliteral, placeholderName b'.freeOrdinal, _,
      isParameterName_placeholderName _, by rw [Binder.register, h.placeholder], fun before => ?_⟩
    obtain ⟨⟨-, hnew⟩, -⟩ := b'.isLeast_freeOrdinal
    rw [List.mem_append, not_or] at hnew
    have hname : placeholderName b'.freeOrdinal ∉ names := fun hmem =>
      hnew.1 (h.subset_reserved hmem)
    refine ⟨h.inline, rfl, h.valueFor_eq, h.subset_reserved, ?_, ?_⟩
    · rw [Bindings.entries_set_of_notMem hnew.2, List.filter_append, ← h.named_eq]
      simp [hname]
    · rw [Bindings.entries_set_of_notMem hnew.2, List.filter_append, h.generated_eq]
      simp [hname]
  · rw [h.inline] at hmode
    cases hmode

end Partners

/-! ### Drafts side by side -/

/-- The value that an emission writes. -/
def Emission.value? : Emission → Option Value
  | .value v => some v
  | _ => none

/-- Two drafts that differ in the holes only, with their binders. -/
structure Lockstep (names : List String) (d d' : Draft) (holes : List Hole) (last : String) :
    Prop where
  alike : Alike d d' holes last
  partners : Partners names d.binder d'.binder holes
  literals : ∀ h ∈ holes, h.value.literal = .ok h.literal ∧ isFirm h.literal = true
    ∧ isFirm (placeholder h.name) = true

namespace Lockstep

variable {names : List String} {d d' : Draft} {holes : List Hole} {last : String}

/-- A token that is the same on both sides; parentheses are counted on each of them. -/
theorem write (h : Lockstep names d d' holes last) (token : String) (k k' : Nat) {b b' : Binder}
    (hpartners : Partners names b b' holes) :
    Lockstep names { d.write token with unclosed := k, binder := b }
      { d'.write token with unclosed := k', binder := b' } holes (last ++ d.added token) :=
  ⟨(h.alike.write token).update k k' b b', hpartners, h.literals⟩

theorem space (h : Lockstep names d d' holes last) :
    Lockstep names d.space d'.space holes last := by
  have hbinder : ∀ d : Draft, d.space.binder = d.binder := fun d => by
    rw [Draft.space]
    split <;> rfl
  exact ⟨h.alike.space, by rw [hbinder, hbinder]; exact h.partners, h.literals⟩

/-- A literal on one side, and a placeholder on the other. -/
theorem hole (h : Lockstep names d d' holes last) {v : Value} {literal name : String}
    {b b' : Binder}
    (hpartners : ∀ before, Partners names b b' (holes ++ [⟨before, v, literal, name⟩]))
    (hliteral : v.literal = .ok literal) (hsolid : ∀ s ∈ v.names, isSolid s = true)
    (hname : isParameterName name = true) :
    Lockstep names ({ d with binder := b }.write literal)
      ({ d' with binder := b' }.write (placeholder name))
      (holes ++ [⟨last ++ d.gap, v, literal, name⟩]) "" := by
  have hfirm : isFirm literal = true := Value.isFirm_literal hliteral hsolid
  have hplaceholder := isFirm_placeholder hname
  exact ⟨(h.alike.update d.unclosed d'.unclosed b b').hole hfirm hplaceholder, hpartners _,
    List.forall_mem_append.2
      ⟨h.literals, List.forall_mem_singleton.2 ⟨hliteral, hfirm, hplaceholder⟩⟩⟩

end Lockstep

namespace Draft

variable {names : List String} {d d' d₁ : Draft} {holes : List Hole} {last : String}

/-- An emission that is written with literals inline is written with placeholders, and the drafts
stay side by side. -/
theorem exists_emit_placeholder (h : Lockstep names d d' holes last) {e : Emission}
    (hname : ∀ s v, e = .parameter s v → s ∈ names)
    (hsolid : ∀ v, e = .value v → ∀ s ∈ v.names, isSolid s = true)
    (he : d.emit e = (d₁, none)) :
    ∃ d₁' holes₁ last₁, d'.emit e = (d₁', none) ∧ Lockstep names d₁ d₁' holes₁ last₁
      ∧ holes₁.map Hole.value = holes.map Hole.value ++ e.value?.toList := by
  have hkeep : holes.map Hole.value = holes.map Hole.value ++ (none : Option Value).toList :=
    (List.append_nil _).symm
  cases e with
  | value v =>
    rw [emit] at he
    rcases hr : d.binder.register v with ⟨fault | token, b⟩
    · simp [hr, bound] at he
    · obtain ⟨hliteral, name, b', hparameter, hr', hpartners⟩ := h.partners.register hr
      rw [hr, bound, Prod.mk.injEq] at he
      obtain ⟨rfl, -⟩ := he
      refine ⟨_, _, "", by rw [emit, hr', bound],
        h.hole hpartners hliteral (hsolid v rfl) hparameter, ?_⟩
      rw [List.map_append]
      rfl
  | parameter s v =>
    rw [emit] at he
    rcases hr : d.binder.bind s v with ⟨fault | token, b⟩
    · simp [hr, bound] at he
    · obtain ⟨b', hr', hpartners⟩ := h.partners.bind (hname s v rfl) hr
      rw [hr, bound, Prod.mk.injEq] at he
      obtain ⟨rfl, -⟩ := he
      exact ⟨_, holes, _, by rw [emit, hr', bound]; rfl,
        h.write token d.unclosed d'.unclosed hpartners, hkeep⟩
  | stop fault => cases he
  | space =>
    cases he
    exact ⟨d'.space, holes, last, rfl, h.space, hkeep⟩
  | opening =>
    cases he
    exact ⟨_, holes, _, rfl, h.write "(" (d.unclosed + 1) (d'.unclosed + 1) h.partners, hkeep⟩
  | closing =>
    cases he
    exact ⟨_, holes, _, rfl, h.write ")" (d.unclosed - 1) (d'.unclosed - 1) h.partners, hkeep⟩
  | _ =>
    -- the token is known, and nothing else is done
    cases he
    exact ⟨_, holes, _, rfl, h.write _ d.unclosed d'.unclosed h.partners, hkeep⟩

/-- Emissions that are written with literals inline are written with placeholders. -/
theorem exists_emitAll_placeholder {es : List Emission} (h : Lockstep names d d' holes last)
    (hnames : ∀ s v, Emission.parameter s v ∈ es → s ∈ names)
    (hsolid : ∀ v, Emission.value v ∈ es → ∀ s ∈ v.names, isSolid s = true)
    (he : d.emitAll es = (d₁, none)) :
    ∃ d₁' holes₁ last₁, d'.emitAll es = (d₁', none) ∧ Lockstep names d₁ d₁' holes₁ last₁
      ∧ holes₁.map Hole.value = holes.map Hole.value ++ es.filterMap Emission.value? := by
  induction es generalizing d d' holes last with
  | nil =>
    simp only [emitAll_nil, Prod.mk.injEq, and_true] at he
    exact ⟨d', holes, last, rfl, he ▸ h, (List.append_nil _).symm⟩
  | cons e es ih =>
    obtain ⟨d₂, he, hes⟩ := emitAll_cons_eq_none.1 he
    obtain ⟨d₂', holes₂, last₂, he', hlock, hvalues⟩ := exists_emit_placeholder h
      (fun s v heq => hnames s v (heq ▸ List.mem_cons_self))
      (fun v heq => hsolid v (heq ▸ List.mem_cons_self)) he
    obtain ⟨d₁', holes₁, last₁, hes', hlock₁, hvalues₁⟩ := ih hlock
      (fun s v hs => hnames s v (List.mem_cons_of_mem _ hs))
      (fun v hv => hsolid v (List.mem_cons_of_mem _ hv)) hes
    refine ⟨d₁', holes₁, last₁, emitAll_cons_eq_none.2 ⟨d₂', he', hes'⟩, hlock₁, ?_⟩
    rw [hvalues₁, hvalues, List.append_assoc, List.filterMap_cons]
    cases e.value? <;> rfl

end Draft

/-! ### Rendered queries -/

/-- A text is trimmed in front of its first hole and behind its last only. -/
theorem trim_filled {fill : Hole → String} {holes : List Hole} {last : String}
    (hfill : ∀ h ∈ holes, isFirm (fill h) = true)
    (hstarts : startsFirm (filled fill holes last) = true) :
    String.ofList (trim (filled fill holes last).toList)
      = filled fill holes (String.ofList (trimEnd last.toList)) := by
  have hlast : ∀ c ∈ (filled fill holes "").toList.getLast?, isBlank c = false := by
    rcases List.eq_nil_or_concat holes with rfl | ⟨hs, h, rfl⟩
    · exact fun c hc => nomatch hc
    · intro c hc
      rw [List.concat_eq_append] at hfill hc
      have hends : endsFirm (filled fill (hs ++ [h]) "") = true := by
        rw [filled_concat, String.append_empty, filled_append]
        exact endsFirm_append _ (isFirm_iff.1 (hfill h (by simp))).2
      rw [endsFirm, Option.mem_def.1 hc, Option.any_some, isFirmLast, Bool.and_eq_true,
        Bool.not_eq_true'] at hends
      exact hends.1
  have hsplit : filled fill holes last = filled fill holes "" ++ last := by
    rw [← filled_append, String.empty_append]
  rw [hsplit] at hstarts ⊢
  rw [trim_append hlast hstarts, ← filled_append, String.empty_append]

/-- At the start the two drafts are empty and have bound nothing. -/
theorem Query.lockstep_start (q : Query) (supplied : Option Bindings) :
    Lockstep (q.parameters.map Prod.fst) (Draft.start (q.binder supplied .inline))
      (Draft.start (q.binder supplied .placeholder)) [] "" := by
  refine ⟨⟨rfl, rfl, rfl, rfl⟩, ?_, fun h hh => nomatch hh⟩
  show Partners _ (q.binder supplied .inline) (q.binder supplied .placeholder) []
  rw [Query.binder, Query.binder, Binder.foldl_reserve, Binder.foldl_reserve]
  refine ⟨rfl, rfl, rfl, ?_, rfl, rfl⟩
  exact fun s hs => List.mem_append_left _ (List.mem_reverse.2 hs)

/-- A layout that nothing stops writes the values of the literals, in their order. -/
theorem Written.values_eq {P : String → Prop} {es : List Emission} {ns : List Expr}
    (h : Written P es ns) (hstop : ∀ fault, Emission.stop fault ∉ es) :
    es.filterMap Emission.value? = ns.filterMap Expr.literalValue? := by
  have hrequests := congrArg (List.filterMap fun r : Request =>
    match r with | .register v => some v | _ => none) (h.requests_eq hstop)
  rw [List.filterMap_filterMap, List.filterMap_filterMap] at hrequests
  have hemission : Emission.value? = fun e => e.request?.bind fun r : Request =>
      match r with | .register v => some v | _ => none := by
    funext e
    cases e <;> rfl
  have hexpr : Expr.literalValue? = fun e => e.request?.bind fun r : Request =>
      match r with | .register v => some v | _ => none := by
    funext e
    cases e <;> rfl
  rw [hemission, hexpr]
  exact hrequests

/-- A query that can be rendered with its literals inline can be rendered with placeholders, and
the two texts are the same pieces around the literals and around the generated placeholders.  The
bindings inline are those with placeholders without the generated ones. -/
theorem Query.exists_holes {q : Query} {supplied : Option Bindings} {r : Rendered}
    (hsolid : ∀ v ∈ q.literals, ∀ s ∈ v.names, isSolid s = true)
    (h : q.render .standard supplied .inline = .ok r) :
    ∃ r' holes last,
      q.render .standard supplied .placeholder = .ok r'
      ∧ holes.map Hole.value = q.literals
      ∧ (∀ h ∈ holes, h.value.literal = .ok h.literal)
      ∧ r.text = filled Hole.literal holes last
      ∧ r'.text = filled (fun h => placeholder h.name) holes last
      ∧ r'.bindings.entries.filter (·.1 ∉ q.parameters.map Prod.fst)
        = holes.map (fun h => (h.name, h.value))
      ∧ r.bindings.entries = r'.bindings.entries.filter (·.1 ∈ q.parameters.map Prod.fst) := by
  have hwritten : Written (fun _ => True) (Dialect.standard.write q.part) q.nodes :=
    Query.written Dialect.standard_hasWords q fun _ _ => trivial
  obtain ⟨hshape, hbound, hr⟩ := Query.render_eq_ok.1 h
  obtain ⟨d, hemit, hfinish⟩ := Binder.rendered_eq_ok.1 hr
  obtain ⟨-, -, htext, hbindings⟩ := Draft.finish_eq_ok.1 hfinish
  have hstop := (Draft.binder_of_emitAll hemit).2
  have hvalues := hwritten.values_eq hstop
  obtain ⟨d', holes, last, hemit', hlock, hholes⟩ :=
    Draft.exists_emitAll_placeholder (q.lockstep_start supplied)
      (fun s v hs => Query.mem_parameters (hwritten.mem_of_parameter hs))
      (fun v hv => hsolid v (by
        rw [Query.literals, ← hvalues]
        exact List.mem_filterMap.2 ⟨_, hv, rfl⟩)) hemit
  obtain ⟨text, bindings, hfinish'⟩ := Query.exists_finish Dialect.standard_hasWords hemit'
  obtain ⟨-, -, rfl, rfl⟩ := Draft.finish_eq_ok.1 hfinish'
  have hstarts := Query.startsFirm_text hemit
  have hstarts' := Query.startsFirm_text hemit'
  rw [hlock.alike.text_inline] at hstarts
  rw [hlock.alike.text_placeholder] at hstarts'
  refine ⟨⟨String.ofList (trim d'.text.toList), d'.binder.bound⟩, holes,
    String.ofList (trimEnd last.toList), ?_, ?_, ?_, ?_, ?_, ?_, ?_⟩
  · exact Query.render_eq_ok.2 ⟨hshape, hbound, Binder.rendered_eq_ok.2 ⟨d', hemit', hfinish'⟩⟩
  · rw [hholes, hvalues]
    rfl
  · exact fun h hh => (hlock.literals h hh).1
  · rw [htext, hlock.alike.text_inline]
    exact trim_filled (fun h hh => (hlock.literals h hh).2.1) hstarts
  · show String.ofList (trim d'.text.toList) = _
    rw [hlock.alike.text_placeholder]
    exact trim_filled (fun h hh => (hlock.literals h hh).2.2) hstarts'
  · exact hlock.partners.generated_eq
  · rw [hbindings]
    exact hlock.partners.named_eq

/-- Three literals, one of them negative under a minus sign and one an enumeration constant, and a
parameter with a name that could be generated. -/
def novelsOfRank : Query := .select {
  resultType := "Book"
  distinct := false
  items := [.entity ⟨"Book", "b"⟩]
  sources := [⟨⟨"Book", "b"⟩, []⟩]
  filter := some (.logical .and [
    .comparison .lt (.negate (.literal (.int (-3)))) (.path ⟨["b", "rank"]⟩),
    .comparison .eq (.path ⟨["b", "genre"]⟩) (.literal (.enum "shop.Genre" "NOVEL")),
    .comparison .ne (.path ⟨["b", "title"]⟩) (.parameter "param1" (some (.string "Emma"))),
    .comparison .ne (.path ⟨["b", "author"]⟩) (.literal (.string "J. A."))])
  groupBy := []
  having := none
  orderBy := [] }

theorem exists_holes_novelsOfRank :
    (∀ v ∈ novelsOfRank.literals, ∀ s ∈ v.names, isSolid s = true)
      ∧ ∃ r r' holes last, novelsOfRank.render .standard none .inline = .ok r
        ∧ novelsOfRank.render .standard none .placeholder = .ok r'
        ∧ holes.map Hole.value = [.int (-3), .enum "shop.Genre" "NOVEL", .string "J. A."]
        ∧ r.text = filled Hole.literal holes last
        ∧ r'.text = filled (fun h => placeholder h.name) holes last := by
  have hsolid : ∀ v ∈ novelsOfRank.literals, ∀ s ∈ v.names, isSolid s = true := by
    decide +kernel
  obtain ⟨r, hr⟩ := exists_of_isOk (x := novelsOfRank.render .standard none .inline)
    (by decide +kernel)
  obtain ⟨r', holes, last, hr', hvalues, -, htext, htext', -, -⟩ :=
    Query.exists_holes hsolid hr
  exact ⟨hsolid, r, r', holes, last, hr, hr', hvalues, htext, htext'⟩

end PersistenceQuery
