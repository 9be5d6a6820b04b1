import PersistenceQuery.Rendering.Draft

/-!
# What an emission does

An emission that does not fail does three things to a draft: it writes its token, it makes its
request to the binder, and it counts a parenthesis.

## Main definitions

* `Emission.token`, `Emission.request?`, `Emission.opened` — the three of them.

## Main results

* `Draft.eq_of_emit` — the draft that an emission leaves.
* `Draft.emitAll_keeps` — what every emission keeps, a sequence of them keeps.
* `Draft.binder_of_emitAll` — emissions that do not fail answer all their requests.
-/

namespace PersistenceQuery

open Text

namespace Emission

/-- The token of an emission; an emission that fails or only asks for a space has none. -/
def token (b : Binder) : Emission → String
  | .word text => text
  | .name text => text
  | .quoted text => quote text
  | .opening => "("
  | .closing => ")"
  | .value v => match (b.register v).1 with
    | .ok token => token
    | .error _ => ""
  | .parameter s embedded => match (b.bind s embedded).1 with
    | .ok token => token
    | .error _ => ""
  | .space | .stop _ => ""

@[simp] theorem token_word (b : Binder) (w : String) : (word w).token b = w := rfl

@[simp] theorem token_space (b : Binder) : space.token b = "" := rfl

@[simp] theorem token_opening (b : Binder) : opening.token b = "(" := rfl

@[simp] theorem token_closing (b : Binder) : closing.token b = ")" := rfl

/-- The token of a value is its literal or a generated placeholder; a value that has to be written
inline and has no literal has none. -/
theorem token_value_cases (b : Binder) (v : Value) :
    (b.mode = .inline ∧ v.literal = .ok ((value v).token b))
      ∨ (b.mode = .placeholder
        ∧ (value v).token b = placeholder (placeholderName b.freeOrdinal))
      ∨ b.mode = .inline ∧ (∃ cause, v.literal = .error cause) ∧ (value v).token b = "" := by
  rw [token, Binder.register]
  cases b.mode with
  | placeholder => exact .inr (.inl ⟨rfl, rfl⟩)
  | inline =>
    cases v.literal with
    | ok text => exact .inl ⟨rfl, rfl⟩
    | error cause => exact .inr (.inr ⟨rfl, ⟨cause, rfl⟩, rfl⟩)

/-- The token of a named parameter is its placeholder, or there is none. -/
theorem token_parameter_cases (b : Binder) (s : String) (embedded : Option Value) :
    (parameter s embedded).token b = placeholder s ∨ (parameter s embedded).token b = "" := by
  rw [token, Binder.bind]
  cases b.valueFor s embedded with
  | some value => exact .inl rfl
  | none => exact .inr rfl

/-- The request that an emission makes to the binder. -/
def request? : Emission → Option Request
  | .value v => some (.register v)
  | .parameter s embedded => some (.bind s embedded)
  | _ => none

/-- How many parentheses are open behind the emission, if so many were in front of it. -/
def opened : Emission → Nat → Nat
  | .opening, k => k + 1
  | .closing, k => k - 1
  | _, k => k

end Emission

namespace Draft

/-- An emission that does not fail writes its token, makes its request and counts a parenthesis;
only a request for a space writes nothing. -/
theorem eq_of_emit {d d' : Draft} {e : Emission} (h : d.emit e = (d', none)) :
    d' = { (if e = .space then d.space else d.write (e.token d.binder)) with
      unclosed := e.opened d.unclosed
      binder := d.binder.after e.request?.toList } := by
  cases e with
  | value v =>
    simp only [emit] at h
    rcases hr : d.binder.register v with ⟨fault | token, b⟩
    · simp [hr, bound] at h
    · simp only [hr, bound, Prod.mk.injEq, and_true] at h
      rw [← h]
      simp [Emission.token, Emission.request?, Emission.opened, Binder.after, Binder.handle, hr,
        write]
  | parameter s embedded =>
    simp only [emit] at h
    rcases hr : d.binder.bind s embedded with ⟨fault | token, b⟩
    · simp [hr, bound] at h
    · simp only [hr, bound, Prod.mk.injEq, and_true] at h
      rw [← h]
      simp [Emission.token, Emission.request?, Emission.opened, Binder.after, Binder.handle, hr,
        write]
  | space =>
    simp only [emit, Prod.mk.injEq, and_true] at h
    rw [← h, if_pos rfl, space]
    split <;> rfl
  | stop fault => simp [emit] at h
  | _ =>
    simp only [emit, Prod.mk.injEq, and_true] at h
    rw [← h]
    rfl

theorem binder_of_emit {d d' : Draft} {e : Emission} (h : d.emit e = (d', none)) :
    d'.binder = d.binder.after e.request?.toList := by
  rw [eq_of_emit h]

theorem unclosed_of_emit {d d' : Draft} {e : Emission} (h : d.emit e = (d', none)) :
    d'.unclosed = e.opened d.unclosed := by
  rw [eq_of_emit h]

/-- What single emissions keep, whether they fail or not, is kept when one is made after the
other. -/
theorem emitAll_keeps {I : Draft → Prop} {es : List Emission}
    (hstep : ∀ e ∈ es, ∀ d, I d → I (d.emit e).1) {d : Draft} (h : I d) : I (d.emitAll es).1 := by
  induction es generalizing d with
  | nil => exact h
  | cons e es ih =>
    obtain ⟨hfirst, hrest⟩ := List.forall_mem_cons.1 hstep
    have he := hfirst d h
    rw [emitAll]
    rcases heq : d.emit e with ⟨d₁, _ | fault⟩
    · rw [heq] at he
      exact ih hrest he
    · rw [heq] at he
      exact he

/-- Emissions that do not fail leave the binder as their requests do, and none of them stops. -/
theorem binder_of_emitAll {es : List Emission} {d d' : Draft} (h : d.emitAll es = (d', none)) :
    d'.binder = d.binder.after (es.filterMap Emission.request?)
      ∧ ∀ fault, Emission.stop fault ∉ es := by
  induction es generalizing d with
  | nil =>
    simp only [emitAll_nil, Prod.mk.injEq, and_true] at h
    rw [← h]
    exact ⟨rfl, fun fault => List.not_mem_nil⟩
  | cons e es ih =>
    obtain ⟨d₁, he, hes⟩ := emitAll_cons_eq_none.1 h
    obtain ⟨hbinder, hstop⟩ := ih hes
    refine ⟨?_, ?_⟩
    · rw [hbinder, binder_of_emit he]
      cases hr : e.request? <;> simp [Binder.after, hr]
    · intro fault hmem
      rcases List.mem_cons.1 hmem with rfl | hmem
      · simp [emit] at he
      · exact hstop fault hmem

end Draft
end PersistenceQuery
