import Mathlib.Order.Bounds.Basic
import PersistenceQuery.Proofs.Binding.FreshName
import PersistenceQuery.Rendering.Rendered

/-!
# Writing the same twice

Two runs that write the same, but for values of which nothing shows, leave the same text and bind
the same names.  What a run may look at is said by the relation between the two binders: the mode,
the ordinals, the generated names that are reserved, and the values of the parameters that occur.
Neither the other reserved names nor their order play a part.

What shows of a value is a parameter `f` of this development: all of it, or nothing.

## Main definitions

* `Emission.seen`, `Rendered.seen` — emissions and results, with what shows of their values.
* `Binder.Twins`, `Draft.Twins` — binders and drafts that cannot be told apart.

## Main results

* `Binder.Twins.freeOrdinal_eq` — twin binders generate the same names.
* `Draft.Twins.emit`, `Draft.Twins.emitAll` — twin drafts stay twins, or both stop with one fault.
* `Binder.Twins.rendered` — twin binders give the same result.
-/

namespace PersistenceQuery

/-- An emission with what shows of its value. -/
def Emission.seen (f : Value → Value) : Emission → Emission
  | .value v => .value (f v)
  | e => e

/-- The bindings of a result with what shows of their values, and its text. -/
def Rendered.seen (f : Value → Value) (r : Rendered) : String × List (String × Value) :=
  (r.text, r.bindings.entries.map (Prod.map id f))

/-- Emissions that look the same are the same, but for the values that they write. -/
theorem Emission.eq_or_of_seen {f : Value → Value} {e e' : Emission} (h : e.seen f = e'.seen f) :
    e' = e ∨ ∃ v v', e = .value v ∧ e' = .value v' ∧ f v = f v' := by
  cases e with
  | value v =>
    cases e' with
    | value v' => exact .inr ⟨v, v', rfl, rfl, Emission.value.inj h⟩
    | _ => cases h
  | _ =>
    cases e' with
    | value v' => cases h
    | _ => exact .inl h.symm

/-! ### Binders -/

/-- Binders that give the same tokens: nothing differs between them that shows in a text with
parameters of these names. -/
structure Binder.Twins (f : Value → Value) (names : Set String) (b b' : Binder) : Prop where
  mode_eq : b'.mode = b.mode
  next_eq : b'.next = b.next
  next_pos : 0 < b.next
  reserved_iff : ∀ n, 0 < n → (placeholderName n ∈ b'.reserved ↔ placeholderName n ∈ b.reserved)
  valueFor_eq : ∀ s ∈ names, b'.valueFor s = b.valueFor s
  bound_eq : b'.bound.entries.map (Prod.map id f) = b.bound.entries.map (Prod.map id f)
  /-- Where literals are written inline, all of a value shows. -/
  inline : b.mode = .inline → f = id

/-- Answers of two binders: the same token or fault, from binders that still cannot be told
apart. -/
inductive Binder.Answers (f : Value → Value) (names : Set String) :
    Except Fault String × Binder → Except Fault String × Binder → Prop
  | alike (answer : Except Fault String) {b b' : Binder} (h : Binder.Twins f names b b') :
    Answers f names (answer, b) (answer, b')

namespace Binder.Twins

variable {f : Value → Value} {names : Set String} {b b' : Binder}

theorem names_eq (h : Twins f names b b') : b'.bound.names = b.bound.names := by
  have hnames := congrArg (List.map Prod.fst) h.bound_eq
  rwa [List.map_map, List.map_map] at hnames

/-- Twin binders generate the same names. -/
theorem freeOrdinal_eq (h : Twins f names b b') : b'.freeOrdinal = b.freeOrdinal := by
  have hfree : {n | b'.next ≤ n ∧ placeholderName n ∉ b'.reserved ++ b'.bound.names}
      = {n | b.next ≤ n ∧ placeholderName n ∉ b.reserved ++ b.bound.names} := by
    ext n
    rw [Set.mem_ofPred_eq, Set.mem_ofPred_eq, h.next_eq, h.names_eq, List.mem_append,
      List.mem_append]
    refine and_congr_right fun hn => ?_
    -- the names with these ordinals are among those on which the binders agree
    rw [h.reserved_iff n (h.next_pos.trans_le hn)]
  have hleast := b'.isLeast_freeOrdinal
  rw [hfree] at hleast
  exact hleast.unique b.isLeast_freeOrdinal

/-- A name that is new to one of the binders is new to the other, and they may set it to values
that look the same. -/
theorem bound_set (h : Twins f names b b') {name : String} {v v' : Value} (hv : f v = f v')
    (hnew : name ∉ b.bound.names) :
    (b'.bound.set name v').entries.map (Prod.map id f)
      = (b.bound.set name v).entries.map (Prod.map id f) := by
  have hnew' : name ∉ b'.bound.names := by rwa [h.names_eq]
  rw [Bindings.entries_set_of_notMem hnew, Bindings.entries_set_of_notMem hnew', List.map_append,
    List.map_append, h.bound_eq]
  simp [hv]

/-- A literal gets the same token, or none for the same reason. -/
theorem register (h : Twins f names b b') {v v' : Value} (hv : f v = f v') :
    Answers f names (b.register v) (b'.register v') := by
  rw [Binder.register, Binder.register, h.mode_eq, h.freeOrdinal_eq]
  cases hmode : b.mode with
  | inline =>
    -- the whole value shows, so the two are the same
    rw [h.inline hmode, id_eq, id_eq] at hv
    subst hv
    cases v.literal <;> exact .alike _ h
  | placeholder =>
    obtain ⟨⟨hle, hfree⟩, -⟩ := b.isLeast_freeOrdinal
    rw [List.mem_append, not_or] at hfree
    refine .alike _ ⟨rfl, rfl, Nat.succ_pos _, h.reserved_iff, h.valueFor_eq,
      h.bound_set hv hfree.2, fun hinline => ?_⟩
    cases hinline

/-- A named parameter gets the same token, or none in either run. -/
theorem bind (h : Twins f names b b') {s : String} (hs : s ∈ names) (embedded : Option Value) :
    Answers f names (b.bind s embedded) (b'.bind s embedded) := by
  have hcontains : b'.bound.contains s = b.bound.contains s := by
    rw [Bindings.contains, Bindings.contains, h.names_eq]
  rw [Binder.bind, Binder.bind, h.valueFor_eq s hs, hcontains]
  cases b.valueFor s embedded with
  | none => exact .alike _ h
  | some value =>
    refine .alike _ ?_
    by_cases hold : b.bound.contains s = true
    · rw [if_pos hold, if_pos hold]
      exact h
    · rw [if_neg hold, if_neg hold]
      rw [Bindings.contains_iff] at hold
      exact ⟨h.mode_eq, h.next_eq, h.next_pos, h.reserved_iff, h.valueFor_eq,
        h.bound_set rfl hold, h.inline⟩

end Binder.Twins

/-! ### Drafts -/

/-- Drafts with the same text, and with binders that cannot be told apart. -/
structure Draft.Twins (f : Value → Value) (names : Set String) (d d' : Draft) : Prop where
  text_eq : d'.text = d.text
  unclosed_eq : d'.unclosed = d.unclosed
  pending_eq : d'.spacePending = d.spacePending
  binder : Binder.Twins f names d.binder d'.binder

/-- Two runs so far: both of them stopped by the same fault, or both going on alike. -/
inductive Draft.Outcomes (f : Value → Value) (names : Set String) :
    Draft × Option Fault → Draft × Option Fault → Prop
  | stopped (d d' : Draft) (fault : Fault) : Outcomes f names (d, some fault) (d', some fault)
  | going {d d' : Draft} (h : Draft.Twins f names d d') : Outcomes f names (d, none) (d', none)

namespace Draft.Twins

variable {f : Value → Value} {names : Set String} {d d' : Draft}

theorem write (h : Twins f names d d') (token : String) :
    Twins f names (d.write token) (d'.write token) := by
  refine ⟨?_, h.unclosed_eq, rfl, h.binder⟩
  rw [Draft.write, Draft.write, h.text_eq, h.pending_eq]

theorem space (h : Twins f names d d') : Twins f names d.space d'.space := by
  rw [Draft.space, Draft.space, h.text_eq]
  split
  · exact h
  · exact ⟨rfl, h.unclosed_eq, rfl, h.binder⟩

theorem bound (h : Twins f names d d') {x x' : Except Fault String × Binder}
    (hx : Binder.Answers f names x x') : Outcomes f names (d.bound x) (d'.bound x') := by
  cases hx with
  | @alike answer b b' hb =>
    cases answer with
    | error fault => exact .stopped _ _ fault
    | ok token =>
      have hbound : Twins f names { d with binder := b } { d' with binder := b' } :=
        ⟨h.text_eq, h.unclosed_eq, h.pending_eq, hb⟩
      exact .going (hbound.write token)

/-- One emission that looks the same. -/
theorem emit (h : Twins f names d d') {e e' : Emission} (he : e.seen f = e'.seen f)
    (hnames : ∀ s v, e = .parameter s v → s ∈ names) :
    Outcomes f names (d.emit e) (d'.emit e') := by
  rcases Emission.eq_or_of_seen he with rfl | ⟨v, v', rfl, rfl, hv⟩
  · cases e' with
    | value v => exact h.bound (h.binder.register rfl)
    | parameter s v => exact h.bound (h.binder.bind (hnames s v rfl) v)
    | stop fault => exact .stopped _ _ fault
    | space => exact .going h.space
    | opening =>
      have hopen := h.write "("
      exact .going ⟨hopen.text_eq, congrArg (· + 1) h.unclosed_eq, rfl, hopen.binder⟩
    | closing =>
      have hclose : Twins f names { d with unclosed := d.unclosed - 1 }
          { d' with unclosed := d'.unclosed - 1 } :=
        ⟨h.text_eq, congrArg (· - 1) h.unclosed_eq, h.pending_eq, h.binder⟩
      exact .going (hclose.write ")")
    | _ => exact .going (h.write _)
  · exact h.bound (h.binder.register hv)

/-- Emissions that look the same. -/
theorem emitAll {es es' : List Emission} (h : Twins f names d d')
    (hes : es.map (Emission.seen f) = es'.map (Emission.seen f))
    (hnames : ∀ s v, Emission.parameter s v ∈ es → s ∈ names) :
    Outcomes f names (d.emitAll es) (d'.emitAll es') := by
  induction es generalizing es' d d' with
  | nil =>
    rw [List.map_nil, eq_comm, List.map_eq_nil_iff] at hes
    rw [hes]
    exact .going h
  | cons e es ih =>
    rw [List.map_cons, eq_comm, List.map_eq_cons_iff] at hes
    obtain ⟨e', es', rfl, he, hes⟩ := hes
    rw [Draft.emitAll, Draft.emitAll]
    have hfirst := h.emit he.symm fun s v heq => hnames s v (heq ▸ List.mem_cons_self)
    -- the draft behind the first emission is the one from which the others go on
    generalize d.emit e = x at hfirst ⊢
    generalize d'.emit e' = x' at hfirst ⊢
    cases hfirst with
    | stopped d d' fault => exact .stopped _ _ fault
    | going h => exact ih h hes.symm fun s v hs => hnames s v (List.mem_cons_of_mem _ hs)

/-- Finished texts are the same. -/
theorem finish (h : Twins f names d d') :
    d.finish.map (Prod.map id fun bindings => bindings.entries.map (Prod.map id f))
      = d'.finish.map (Prod.map id fun bindings => bindings.entries.map (Prod.map id f)) := by
  rw [Draft.finish, Draft.finish, h.text_eq, h.unclosed_eq]
  split
  · rfl
  · split
    · rfl
    · exact congrArg (fun entries => Except.ok (_, entries)) h.binder.bound_eq.symm

end Draft.Twins

/-- Twin binders give the same result, with what shows of its values. -/
theorem Binder.Twins.rendered {f : Value → Value} {names : Set String} {b b' : Binder}
    (h : Binder.Twins f names b b') {es es' : List Emission}
    (hes : es.map (Emission.seen f) = es'.map (Emission.seen f))
    (hnames : ∀ s v, Emission.parameter s v ∈ es → s ∈ names) :
    (b.rendered es).map (Rendered.seen f) = (b'.rendered es').map (Rendered.seen f) := by
  have hstart : Draft.Twins f names (Draft.start b) (Draft.start b') := ⟨rfl, rfl, rfl, h⟩
  have hrun := hstart.emitAll hes hnames
  rw [Binder.rendered, Binder.rendered]
  generalize (Draft.start b).emitAll es = x at hrun ⊢
  generalize (Draft.start b').emitAll es' = x' at hrun ⊢
  cases hrun with
  | stopped d d' fault => exact rfl
  | @going d d' h =>
    have hfinish := h.finish
    rcases hd : d.finish with fault | ⟨text, bindings⟩ <;>
      rcases hd' : d'.finish with fault' | ⟨text', bindings'⟩ <;>
      rw [hd, hd'] at hfinish <;> simp only [hd, hd']
    · cases hfinish
      rfl
    · cases hfinish
    · cases hfinish
    · exact congrArg Except.ok (Except.ok.inj hfinish)

end PersistenceQuery
