import PersistenceQuery.Proofs.Binding.FreshName

/-!
# Sequences of calls to a binder

What a single call can do to a binder, and what any sequence of calls keeps, in whatever order
literals are registered, named parameters are bound and names are reserved.  Bindings are only
ever added behind those that are there, and the ordinals of generated names only grow.

## Main definitions

* `Binder.Handles` — a call with its answer and the state it leaves, one rule for each outcome.
* `Binder.Grows` — a state that another one can come to by calls.

## Main results

* `Binder.handles` — a call has one of the outcomes.
* `Binder.grows_after` — a sequence of calls only adds to the state.
* `Binder.handle_appends` — what every call adds, wherever it stands in a sequence.
-/

namespace PersistenceQuery

/-- The names of the values that a caller supplies. -/
def suppliedNames (supplied : Option Bindings) : List String :=
  (supplied.map Bindings.names).getD []

theorem placeholder_injective : Function.Injective placeholder := by
  intro s t h
  have hlist := congrArg String.toList h
  rw [placeholder, placeholder, String.toList_append, String.toList_append] at hlist
  exact String.toList_injective (List.append_cancel_left hlist)

namespace Binder

/-! ### One call -/

/-- The outcomes of a call to a binder: the answer, and the state behind it. -/
inductive Handles (b : Binder) : Request → Except Fault (Option String) → Binder → Prop
  | reserved (name : String) : Handles b (.reserve name) (.ok none) (b.reserve name)
  /-- A literal written as it is. -/
  | inlined {v : Value} {text : String} (hmode : b.mode = .inline) (h : v.literal = .ok text) :
    Handles b (.register v) (.ok (some text)) b
  /-- A value that cannot be written as it is. -/
  | refused {v : Value} {cause : ValueFault} (hmode : b.mode = .inline)
    (h : v.literal = .error cause) : Handles b (.register v) (.error (.unsupportedValue cause)) b
  /-- A literal bound under a name that nothing else has. -/
  | generated (v : Value) (hmode : b.mode = .placeholder) :
    Handles b (.register v) (.ok (some (placeholder (placeholderName b.freeOrdinal)))) { b with
      next := b.freeOrdinal + 1
      bound := b.bound.set (placeholderName b.freeOrdinal) v }
  /-- A parameter that is bound for the first time. -/
  | named {name : String} {embedded : Option Value} {v : Value}
    (hvalue : b.valueFor name embedded = some v) (h : name ∉ b.bound.names) :
    Handles b (.bind name embedded) (.ok (some (placeholder name)))
      { b with bound := b.bound.set name v }
  /-- A parameter that is bound already. -/
  | known {name : String} {embedded : Option Value} {v : Value}
    (hvalue : b.valueFor name embedded = some v) (h : name ∈ b.bound.names) :
    Handles b (.bind name embedded) (.ok (some (placeholder name))) b
  /-- A parameter without a value. -/
  | unbound {name : String} {embedded : Option Value} (h : b.valueFor name embedded = none) :
    Handles b (.bind name embedded) (.error (.missingBinding name)) b

/-- A call has one of the outcomes. -/
theorem handles (b : Binder) (r : Request) : b.Handles r (b.handle r).1 (b.handle r).2 := by
  cases r with
  | reserve name => exact .reserved name
  | register v =>
    cases hmode : b.mode with
    | inline =>
      cases hliteral : v.literal with
      | error cause =>
        have hrefused := Handles.refused hmode hliteral
        simpa only [handle, register, hmode, hliteral, Except.map] using hrefused
      | ok text =>
        have hinlined := Handles.inlined hmode hliteral
        simpa only [handle, register, hmode, hliteral, Except.map] using hinlined
    | placeholder =>
      have hgenerated := Handles.generated v hmode
      simpa only [handle, register, hmode, Except.map] using hgenerated
  | bind name embedded =>
    cases hvalue : b.valueFor name embedded with
    | none => simpa only [handle, bind, hvalue, Except.map] using .unbound hvalue
    | some v =>
      by_cases hname : b.bound.contains name = true
      · have hknown := Bindings.contains_iff.1 hname
        simpa only [handle, bind, hvalue, Except.map, if_pos hname] using .known hvalue hknown
      · have hnew : name ∉ b.bound.names := fun hmem => hname (Bindings.contains_iff.2 hmem)
        simpa only [handle, bind, hvalue, Except.map, if_neg hname] using .named hvalue hnew

theorem exists_handles (b : Binder) (r : Request) :
    ∃ answer b', b.handle r = (answer, b') ∧ b.Handles r answer b' := ⟨_, _, rfl, b.handles r⟩

/-- The name that a literal gets is bound to nothing yet. -/
theorem placeholderName_freeOrdinal_notMem (b : Binder) :
    placeholderName b.freeOrdinal ∉ b.reserved ∧ placeholderName b.freeOrdinal ∉ b.bound.names := by
  have hfree := b.isLeast_freeOrdinal.1.2
  rw [List.mem_append, not_or] at hfree
  exact hfree

theorem next_le_freeOrdinal (b : Binder) : b.next ≤ b.freeOrdinal := b.isLeast_freeOrdinal.1.1

/-! ### What calls keep -/

/-- The second state has all that the first one has, with entries added behind its own. -/
structure Grows (b b' : Binder) : Prop where
  mode_eq : b'.mode = b.mode
  supplied_eq : b'.supplied = b.supplied
  reserved : b.reserved ⊆ b'.reserved
  next_le : b.next ≤ b'.next
  entries : b.bound.entries <+: b'.bound.entries

namespace Grows

variable {b b' b'' : Binder}

theorem refl (b : Binder) : Grows b b :=
  ⟨rfl, rfl, List.Subset.refl _, Nat.le_refl _, List.prefix_rfl⟩

theorem trans (h : Grows b b') (h' : Grows b' b'') : Grows b b'' :=
  ⟨h'.mode_eq.trans h.mode_eq, h'.supplied_eq.trans h.supplied_eq,
    List.Subset.trans h.reserved h'.reserved, Nat.le_trans h.next_le h'.next_le,
    h.entries.trans h'.entries⟩

end Grows

variable {b b' : Binder} {r : Request} {answer : Except Fault (Option String)}

/-- A call adds an entry behind the others, or none. -/
theorem Handles.exists_added (h : b.Handles r answer b') :
    ∃ added, added.length ≤ 1 ∧ b'.bound.entries = b.bound.entries ++ added := by
  cases h with
  | generated v =>
    exact ⟨[_], Nat.le_refl 1,
      Bindings.entries_set_of_notMem b.placeholderName_freeOrdinal_notMem.2⟩
  | named hvalue hnew => exact ⟨[_], Nat.le_refl 1, Bindings.entries_set_of_notMem hnew⟩
  | _ => exact ⟨[], Nat.zero_le 1, (List.append_nil _).symm⟩

theorem Handles.grows (h : b.Handles r answer b') : Grows b b' := by
  have hentries : b.bound.entries <+: b'.bound.entries := by
    obtain ⟨added, -, heq⟩ := h.exists_added
    exact ⟨added, heq.symm⟩
  cases h with
  | reserved name => exact ⟨rfl, rfl, List.subset_cons_self _ _, Nat.le_refl _, hentries⟩
  | generated v =>
    exact ⟨rfl, rfl, List.Subset.refl _, Nat.le_succ_of_le b.next_le_freeOrdinal, hentries⟩
  | named hvalue hnew => exact ⟨rfl, rfl, List.Subset.refl _, Nat.le_refl _, hentries⟩
  | _ => exact .refl b

/-- A call that fails leaves no trace. -/
theorem Handles.eq_of_error {fault : Fault} (h : b.Handles r (.error fault) b') : b' = b := by
  cases h <;> rfl

/-- A literal that is written inline leaves no trace, whether it can be written or not. -/
theorem Handles.eq_of_inline {v : Value} (hmode : b.mode = .inline)
    (h : b.Handles (.register v) answer b') : b' = b := by
  cases h with
  | generated _ hplaceholder => cases hmode.symm.trans hplaceholder
  | _ => rfl

theorem after_append (b : Binder) (rs rs' : List Request) :
    b.after (rs ++ rs') = (b.after rs).after rs' := List.foldl_append

theorem after_cons (b : Binder) (r : Request) (rs : List Request) :
    b.after (r :: rs) = (b.handle r).2.after rs := rfl

/-- A sequence of calls only adds to the state. -/
theorem grows_after (b : Binder) (rs : List Request) : Grows b (b.after rs) := by
  induction rs generalizing b with
  | nil => exact .refl b
  | cons r rs ih => exact (b.handles r).grows.trans (ih _)

/-- Behind a prefix of the calls there is less than behind all of them. -/
theorem grows_of_isPrefix (b : Binder) {rs rs' : List Request} (h : rs <+: rs') :
    Grows (b.after rs) (b.after rs') := by
  obtain ⟨later, rfl⟩ := h
  rw [after_append]
  exact grows_after _ _

/-- A name stays reserved. -/
theorem mem_reserved_after {rs : List Request} {name : String} (h : .reserve name ∈ rs) :
    name ∈ (b.after rs).reserved := by
  obtain ⟨before, later, rfl⟩ := List.append_of_mem h
  rw [after_append, after_cons]
  exact (grows_after _ later).reserved List.mem_cons_self

/-- What is reserved in the beginning are the names of the supplied values. -/
theorem mem_reserved_after_start {mode : Mode} {supplied : Option Bindings} {name : String}
    (h : name ∈ suppliedNames supplied) (rs : List Request) :
    name ∈ ((start mode supplied).after rs).reserved :=
  (grows_after _ rs).reserved h

/-! ### Generated names -/

/-- A literal that is bound gets the next free name, and its entry goes to the end. -/
theorem handle_register_of_placeholder (hmode : b.mode = .placeholder) (v : Value) :
    (b.handle (.register v)).1 = .ok (some (placeholder (placeholderName b.freeOrdinal)))
      ∧ (b.handle (.register v)).2.next = b.freeOrdinal + 1
      ∧ (b.handle (.register v)).2.bound.entries
        = b.bound.entries ++ [(placeholderName b.freeOrdinal, v)] := by
  simp only [handle, register, hmode]
  exact ⟨rfl, trivial,
    Bindings.entries_set_of_notMem b.placeholderName_freeOrdinal_notMem.2⟩

/-- Of two names that are generated one after the other, the later one has the greater ordinal. -/
theorem freeOrdinal_lt_of_isPrefix (hmode : b.mode = .placeholder) {earlier before : List Request}
    {w : Value} (h : earlier ++ [.register w] <+: before) :
    (b.after earlier).freeOrdinal < (b.after before).freeOrdinal := by
  have hmode' : (b.after earlier).mode = .placeholder := (grows_after b earlier).mode_eq.trans hmode
  have hnext := (grows_of_isPrefix b h).next_le
  rw [after_append, after_cons, after, List.foldl_nil,
    (handle_register_of_placeholder hmode' w).2.1] at hnext
  exact Nat.le_trans hnext (next_le_freeOrdinal _)

/-- Wherever a call stands in a sequence of calls, it adds at most one binding, behind those that
are there.  If it fails, it is as if it had not been made.  A literal that is written inline binds
nothing; any other literal is bound, under a generated name whose ordinal is greater than those
before and which no supplied value, no reserved name and no binding has. -/
theorem handle_appends (mode : Mode) (supplied : Option Bindings) (before : List Request)
    (r : Request) :
    let b := (start mode supplied).after before
    let b' := (b.handle r).2
    (∃ added, added.length ≤ 1 ∧ b'.bound.entries = b.bound.entries ++ added)
      ∧ (∀ fault, (b.handle r).1 = .error fault →
        b'.bound = b.bound ∧ ∀ later, b'.run later = b.run later)
      ∧ ∀ v, r = .register v →
        match mode with
        | .inline => b'.bound = b.bound
        | .placeholder => ∃ n, (b.handle r).1 = .ok (some (placeholder (placeholderName n)))
          ∧ b'.bound.entries = b.bound.entries ++ [(placeholderName n, v)]
          ∧ (∀ earlier w m, earlier ++ [.register w] <+: before →
            (((start mode supplied).after earlier).handle (.register w)).1
              = .ok (some (placeholder (placeholderName m))) → m < n)
          ∧ placeholderName n ∉ suppliedNames supplied
          ∧ .reserve (placeholderName n) ∉ before
          ∧ placeholderName n ∉ b.bound.names := by
  intro b b'
  have hhandles : b.Handles r (b.handle r).1 b' := b.handles r
  refine ⟨hhandles.exists_added, ?_, ?_⟩
  · intro fault hfault
    rw [hfault] at hhandles
    rw [hhandles.eq_of_error]
    exact ⟨rfl, fun later => rfl⟩
  rintro v rfl
  have hmode : b.mode = mode := (grows_after _ before).mode_eq
  cases mode with
  | inline => exact congrArg bound (hhandles.eq_of_inline hmode)
  | placeholder =>
    obtain ⟨hanswer, -, hentries⟩ := handle_register_of_placeholder hmode v
    obtain ⟨hreserved, hbound⟩ := b.placeholderName_freeOrdinal_notMem
    refine ⟨b.freeOrdinal, hanswer, hentries, ?_, ?_, ?_, hbound⟩
    · intro earlier w m hbefore hearlier
      have hmode' := (grows_after (start .placeholder supplied) earlier).mode_eq
      rw [(handle_register_of_placeholder hmode' w).1] at hearlier
      have hname := placeholder_injective (Option.some.inj (Except.ok.inj hearlier))
      exact placeholderName_injective hname ▸ freeOrdinal_lt_of_isPrefix rfl hbefore
    · exact fun hmem => hreserved (mem_reserved_after_start hmem before)
    · exact fun hmem => hreserved (mem_reserved_after hmem)

end Binder
end PersistenceQuery
