import PersistenceQuery.Proofs.Binding.Calls
import PersistenceQuery.Proofs.Query.Checked

/-!
# What tokens stand for

A binder gives out tokens while a query is written, and the bindings are looked at only when all
is written.  If the names of the named parameters are known before the first literal is
registered, a token keeps the meaning that it had when it was given out, and no other call gets
the token of a literal.

## Main definitions

* `Request.value?` — the value that a call stands for.
* `Binder.tokens` — the tokens that a sequence of calls returns.
* `Announced` — sequences of calls whose named parameters are known in time.

## Main results

* `Announced.mem_reserved` — when a literal is registered, all names of parameters are reserved.
* `Announced.value?_of_get?` — a bound parameter has the value that it is bound with.
* `Announced.faithful_tokens` — what the tokens of a sequence of calls stand for in the end.
-/

namespace PersistenceQuery

/-- The value that a call stands for: that of the literal, or the supplied value of the parameter
and else the one it brings. -/
def Request.value? (supplied : Option Bindings) : Request → Option Value
  | .register v => some v
  | .bind name embedded => (supplied.bind (·.get? name)).or embedded
  | .reserve _ => none

/-- The call registers a literal. -/
def Request.isRegister : Request → Bool
  | .register _ => true
  | .bind _ _ | .reserve _ => false

namespace Binder

/-- The tokens that calls return one after the other; a call that fails has none, and neither has
one that reserves a name. -/
def tokens (b : Binder) (rs : List Request) : List (Option String) :=
  (b.run rs).map fun answer => answer.1.toOption.join

/-- Every call is answered from the state that the calls in front of it leave. -/
theorem getElem?_run (b : Binder) (rs : List Request) (i : Nat) :
    (b.run rs)[i]? = rs[i]?.map (b.after (rs.take i)).handle := by
  induction rs generalizing b i with
  | nil => rfl
  | cons r rs ih =>
    cases i with
    | zero => rfl
    | succ i =>
      simpa only [run, List.getElem?_cons_succ, List.take_succ_cons, after_cons]
        using ih (b.handle r).2 i

theorem getElem?_tokens {b : Binder} {rs : List Request} {i : Nat} {token : String} :
    (b.tokens rs)[i]? = some (some token)
      ↔ ∃ r, rs[i]? = some r ∧ ((b.after (rs.take i)).handle r).1 = .ok (some token) := by
  rw [tokens, List.getElem?_map, getElem?_run]
  cases rs[i]? with
  | none => simp
  | some r =>
    simp only [Option.map_some, Option.some.injEq, exists_eq_left']
    rcases ((b.after (rs.take i)).handle r).1 with fault | _ | token' <;> simp [Except.toOption]

end Binder

/-- A name that is bound keeps its value while entries are added behind it. -/
theorem Bindings.get?_of_isPrefix {b b' : Bindings} (h : b.entries <+: b'.entries) {name : String}
    {v : Value} (hv : b.get? name = some v) : b'.get? name = some v := by
  obtain ⟨added, heq⟩ := h
  rw [get?] at hv ⊢
  rw [← heq, List.lookup_append, hv, Option.some_or]

/-! ### The states between the calls -/

/-- The state in front of a call, of a sequence that binds its literals. -/
def Binder.upTo (supplied : Option Bindings) (rs : List Request) (i : Nat) : Binder :=
  (Binder.start .placeholder supplied).after (rs.take i)

section
variable {supplied : Option Bindings} {rs : List Request} {i j : Nat} {r : Request}

theorem Binder.upTo_succ (h : rs[i]? = some r) :
    upTo supplied rs (i + 1) = ((upTo supplied rs i).handle r).2 := by
  rw [upTo, List.take_add_one, h, after_append]
  rfl

/-- Behind the last call nothing changes. -/
theorem Binder.upTo_succ_of_none (h : rs[i]? = none) :
    upTo supplied rs (i + 1) = upTo supplied rs i := by
  rw [upTo, List.take_add_one, h, Option.toList_none, List.append_nil, upTo]

@[simp] theorem Binder.mode_upTo : (upTo supplied rs i).mode = .placeholder :=
  (grows_after _ _).mode_eq

theorem Binder.valueFor_upTo (name : String) (embedded : Option Value) :
    (upTo supplied rs i).valueFor name embedded
      = (Request.bind name embedded).value? supplied := by
  rw [valueFor, upTo, (grows_after _ _).supplied_eq]
  rfl

/-- What is bound behind a call is bound in the end. -/
theorem Binder.get?_after (h : rs[i]? = some r) {name : String} {v : Value}
    (hv : ((upTo supplied rs i).handle r).2.bound.get? name = some v) :
    ((start .placeholder supplied).after rs).bound.get? name = some v := by
  rw [← upTo_succ h] at hv
  exact Bindings.get?_of_isPrefix (grows_of_isPrefix _ (List.take_prefix _ rs)).entries hv

/-- Of two literals the later one has the greater ordinal. -/
theorem Binder.freeOrdinal_upTo_lt {v : Value} (h : rs[i]? = some (.register v)) (hlt : i < j) :
    (upTo supplied rs i).freeOrdinal < (upTo supplied rs j).freeOrdinal := by
  have hsucc : rs.take i ++ [.register v] = rs.take (i + 1) := by
    rw [List.take_add_one, h, Option.toList_some]
  exact freeOrdinal_lt_of_isPrefix rfl (hsucc ▸ List.take_prefix_take_left hlt)

end

/-! ### Announced parameters -/

/-- Every named parameter is supplied with a value, or its name is reserved before the first
literal is registered; and one that is not supplied brings the same value wherever it brings
one. -/
structure Announced (supplied : Option Bindings) (rs : List Request) : Prop where
  reserved : ∀ name embedded, .bind name embedded ∈ rs →
    name ∈ suppliedNames supplied ∨ .reserve name ∈ rs.takeWhile (!·.isRegister)
  same : ∀ name v w, .bind name (some v) ∈ rs → .bind name (some w) ∈ rs →
    name ∉ suppliedNames supplied → v = w

theorem isSome_suppliedValue (supplied : Option Bindings) (name : String) :
    (supplied.bind (·.get? name)).isSome = true ↔ name ∈ suppliedNames supplied := by
  cases supplied with
  | none => simp [suppliedNames]
  | some s => exact Bindings.isSome_get? s name

namespace Announced

variable {supplied : Option Bindings} {rs : List Request} {i j : Nat} {r : Request}

/-- A parameter stands for one value, wherever it is bound. -/
theorem value_unique (h : Announced supplied rs) {name : String} {e e' : Option Value}
    {v w : Value} (hbind : .bind name e ∈ rs) (hbind' : .bind name e' ∈ rs)
    (hv : (Request.bind name e).value? supplied = some v)
    (hw : (Request.bind name e').value? supplied = some w) : v = w := by
  have hmem := isSome_suppliedValue supplied name
  rw [Request.value?] at hv hw
  cases hsupplied : supplied.bind (·.get? name) with
  | some x =>
    rw [hsupplied, Option.some_or] at hv hw
    exact Option.some.inj (hv.symm.trans hw)
  | none =>
    rw [hsupplied, Option.none_or] at hv hw
    subst hv hw
    refine h.same name v w hbind hbind' fun hname => ?_
    rw [hsupplied] at hmem
    cases hmem.2 hname

/-- When a literal is registered, the names of all parameters are reserved, those of parameters
that are bound later included. -/
theorem mem_reserved (h : Announced supplied rs) {w : Value} (hi : rs[i]? = some (.register w))
    {name : String} {embedded : Option Value} (hbind : .bind name embedded ∈ rs) :
    name ∈ (Binder.upTo supplied rs i).reserved := by
  rcases h.reserved name embedded hbind with hsupplied | hreserve
  · exact Binder.mem_reserved_after_start hsupplied _
  · -- the calls in front of the first literal stand in front of this one
    have hsplit : rs = rs.take i ++ .register w :: rs.drop (i + 1) := by
      obtain ⟨hlt, hget⟩ := List.getElem?_eq_some_iff.1 hi
      rw [← hget, ← List.drop_eq_getElem_cons hlt, List.take_append_drop]
    rw [hsplit, List.takeWhile_append] at hreserve
    refine Binder.mem_reserved_after ?_
    split at hreserve
    · simpa [Request.isRegister] using hreserve
    · exact (List.takeWhile_sublist _).subset hreserve

/-- The name that a literal gets is that of no parameter. -/
theorem generated_ne (h : Announced supplied rs) {w : Value} (hi : rs[i]? = some (.register w))
    {name : String} {embedded : Option Value} (hbind : .bind name embedded ∈ rs) :
    name ≠ placeholderName (Binder.upTo supplied rs i).freeOrdinal := fun heq =>
  (Binder.placeholderName_freeOrdinal_notMem _).1 (heq ▸ h.mem_reserved hi hbind)

/-- A parameter that is bound at some point has the value that one of its calls stands for. -/
theorem value?_of_get? (h : Announced supplied rs) {name : String} {w : Value}
    (hget : (Binder.upTo supplied rs i).bound.get? name = some w) {embedded : Option Value}
    (hbind : .bind name embedded ∈ rs) :
    ∃ e, .bind name e ∈ rs ∧ (Request.bind name e).value? supplied = some w := by
  induction i generalizing w with
  | zero => cases hget
  | succ i ih =>
    cases hi : rs[i]? with
    | none => exact ih (Binder.upTo_succ_of_none hi ▸ hget)
    | some r =>
      rw [Binder.upTo_succ hi] at hget
      obtain ⟨answer, b', heq, hhandles⟩ := (Binder.upTo supplied rs i).exists_handles r
      rw [heq] at hget
      -- only two outcomes bind anything
      cases hhandles with
      | generated v =>
        rw [Bindings.get?_set, if_neg (h.generated_ne hi hbind)] at hget
        exact ih hget
      | @named s e v hvalue _ =>
        rw [Bindings.get?_set] at hget
        split at hget
        · next hname =>
          obtain rfl := Option.some.inj hget
          rw [Binder.valueFor_upTo] at hvalue
          exact hname ▸ ⟨e, List.mem_of_getElem? hi, hvalue⟩
        · exact ih hget
      | _ => exact ih hget

/-- A token that a call returns is the placeholder of a name, and in the end the name is bound to
the value that the call stands for. -/
theorem exists_bound (h : Announced supplied rs) {token : String} (hi : rs[i]? = some r)
    (htoken : ((Binder.upTo supplied rs i).handle r).1 = .ok (some token)) :
    ∃ name v, token = placeholder name ∧ r.value? supplied = some v
      ∧ ((Binder.start .placeholder supplied).after rs).bound.get? name = some v := by
  have hmem : r ∈ rs := List.mem_of_getElem? hi
  have hfinal : ∀ name v, ((Binder.upTo supplied rs i).handle r).2.bound.get? name = some v →
      ((Binder.start .placeholder supplied).after rs).bound.get? name = some v :=
    fun _ _ => Binder.get?_after hi
  obtain ⟨answer, b', heq, hhandles⟩ := (Binder.upTo supplied rs i).exists_handles r
  rw [heq] at htoken hfinal
  cases hhandles with
  | reserved name => cases htoken
  | refused | unbound => cases htoken
  | inlined hmode _ => cases Binder.mode_upTo.symm.trans hmode
  | generated v =>
    cases htoken
    exact ⟨_, v, rfl, rfl, hfinal _ v (by rw [Bindings.get?_set, if_pos rfl])⟩
  | @named name e v hvalue _ =>
    cases htoken
    rw [Binder.valueFor_upTo] at hvalue
    exact ⟨name, v, rfl, hvalue, hfinal _ v (by rw [Bindings.get?_set, if_pos rfl])⟩
  | @known name e v hvalue hknown =>
    cases htoken
    rw [Binder.valueFor_upTo] at hvalue
    -- what it was bound with first is what this call stands for, too
    obtain ⟨w, hw⟩ := Option.isSome_iff_exists.1 ((Bindings.isSome_get? _ _).2 hknown)
    obtain ⟨e', hbind', hvalue'⟩ := h.value?_of_get? hw hmem
    obtain rfl := h.value_unique hmem hbind' hvalue hvalue'
    exact ⟨name, v, rfl, hvalue, hfinal _ v hw⟩

/-- No other call returns the token of a literal. -/
theorem token_ne (h : Announced supplied rs) {v : Value} (hne : i ≠ j)
    (hi : rs[i]? = some (.register v)) (hj : rs[j]? = some r) {token : String}
    (htoken : ((Binder.upTo supplied rs j).handle r).1 = .ok (some token)) :
    token ≠ placeholder (placeholderName (Binder.upTo supplied rs i).freeOrdinal) := by
  have hmem : r ∈ rs := List.mem_of_getElem? hj
  obtain ⟨answer, b', heq, hhandles⟩ := (Binder.upTo supplied rs j).exists_handles r
  rw [heq] at htoken
  intro hsame
  cases hhandles with
  | reserved name => cases htoken
  | refused | unbound => cases htoken
  | inlined hmode _ => cases Binder.mode_upTo.symm.trans hmode
  | generated w =>
    cases htoken
    have hordinal := placeholderName_injective (placeholder_injective hsame)
    rcases Nat.lt_or_gt_of_ne hne with hlt | hgt
    · exact Nat.ne_of_lt (Binder.freeOrdinal_upTo_lt hi hlt) hordinal.symm
    · exact Nat.ne_of_lt (Binder.freeOrdinal_upTo_lt hj hgt) hordinal
  | named | known =>
    cases htoken
    exact h.generated_ne hi hmem (placeholder_injective hsame)

/-- Tokens keep their meaning.  Every token that a call returns is the placeholder of a name, and
when all calls are made, the name is bound to the value that the call stood for; and the token of
a literal is returned by no other call. -/
theorem faithful_tokens (h : Announced supplied rs) :
    let b := Binder.start .placeholder supplied
    (∀ (i : Nat) (r : Request) (token : String),
      rs[i]? = some r → (b.tokens rs)[i]? = some (some token) →
      ∃ name v, token = placeholder name ∧ r.value? supplied = some v
        ∧ (b.after rs).bound.get? name = some v)
      ∧ ∀ (i j : Nat) (v : Value) (token : String), i ≠ j → rs[i]? = some (.register v) →
        (b.tokens rs)[i]? = some (some token) → (b.tokens rs)[j]? ≠ some (some token) := by
  intro b
  refine ⟨?_, ?_⟩
  · intro i r token hi htoken
    obtain ⟨r', hi', hanswer⟩ := Binder.getElem?_tokens.1 htoken
    obtain rfl := Option.some.inj (hi.symm.trans hi')
    exact h.exists_bound hi hanswer
  · intro i j v token hne hi htoken htoken'
    obtain ⟨r, hi', hanswer⟩ := Binder.getElem?_tokens.1 htoken
    obtain rfl := Option.some.inj (hi.symm.trans hi')
    obtain ⟨r', hj, hanswer'⟩ := Binder.getElem?_tokens.1 htoken'
    refine h.token_ne hne hi hj hanswer' ?_
    rw [show b.after (rs.take i) = Binder.upTo supplied rs i from rfl,
      (Binder.handle_register_of_placeholder Binder.mode_upTo v).1] at hanswer
    exact (Option.some.inj (Except.ok.inj hanswer)).symm

end Announced

/-- A name that looks like a generated one is reserved, and literals and parameters take turns. -/
def turns : List Request :=
  [.reserve "param1", .bind "isbn" none, .register (.int 7),
    .bind "param1" (some (.string "first")), .register (.int 7), .bind "isbn" (some .null),
    .bind "param1" (some (.string "first"))]

theorem tokens_turns :
    let supplied := some (Bindings.ofList [("isbn", .string "123"), ("param3", .null)])
    let b := Binder.start .placeholder supplied
    b.tokens turns = [none, some ":isbn", some ":param2", some ":param1", some ":param4",
        some ":isbn", some ":param1"]
      ∧ Announced supplied turns
      ∧ (∀ (i : Nat) (r : Request) (token : String),
        turns[i]? = some r → (b.tokens turns)[i]? = some (some token) →
        ∃ name v, token = placeholder name ∧ r.value? supplied = some v
          ∧ (b.after turns).bound.get? name = some v)
      ∧ ∀ (i j : Nat) (v : Value) (token : String), i ≠ j → turns[i]? = some (.register v) →
        (b.tokens turns)[i]? = some (some token) → (b.tokens turns)[j]? ≠ some (some token) := by
  intro supplied b
  have hannounced : Announced supplied turns := by
    refine ⟨?_, ?_⟩
    · intro name embedded hbind
      have hname : name = "isbn" ∨ name = "param1" := by
        simp only [turns, List.mem_cons, List.not_mem_nil, reduceCtorEq, Request.bind.injEq,
          false_or, or_false] at hbind
        rcases hbind with ⟨rfl, -⟩ | ⟨rfl, -⟩ | ⟨rfl, -⟩ | ⟨rfl, -⟩ <;> simp
      rcases hname with rfl | rfl
      · exact .inl (by decide +kernel)
      · exact .inr (by decide +kernel)
    · intro name v w hv hw _
      simp only [turns, List.mem_cons, List.not_mem_nil, reduceCtorEq, Request.bind.injEq,
        false_or, or_false, and_false, Option.some.injEq] at hv hw
      rcases hv with ⟨rfl, rfl⟩ | ⟨rfl, rfl⟩ | ⟨rfl, rfl⟩ <;> simp_all
  exact ⟨by decide +kernel, hannounced, hannounced.faithful_tokens⟩

end PersistenceQuery
