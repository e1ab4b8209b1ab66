import ApiScribe.Proofs.TypeExpr.Combining

/-! Reading without parentheses. As long as no parenthesis opens, what stands before an ampersand or
behind one is never a union, so a type that is read from such a text has no union for a member of an
intersection. -/
namespace ApiScribe
namespace TypeExpr

/-- A type that can be a member of an intersection without parentheses. -/
structure IsFlatMember (t : TypeExpr) : Prop where
  flat : IsFlat t
  not_isUnion : t.isUnion = false
  not_isInter : t.isInter = false

theorem IsFlat.of_mem_alternatives {t u : TypeExpr} (h : IsFlat t) (hu : u ∈ t.alternatives) :
    IsFlat u := by
  cases h with
  | union hts => exact hts u hu
  | apply hargs =>
    rw [List.mem_singleton.1 hu]
    exact .apply hargs
  | object hfields =>
    rw [List.mem_singleton.1 hu]
    exact .object hfields
  | inter hts hnot =>
    rw [List.mem_singleton.1 hu]
    exact .inter hts hnot

theorem isFlat_unionOf {ts : List TypeExpr} (h : ∀ t ∈ ts, IsFlat t) : IsFlat (unionOf ts) := by
  have hall : ∀ u ∈ ts.flatMap alternatives, IsFlat u := by
    intro u hu
    obtain ⟨t, ht, hut⟩ := List.mem_flatMap.1 hu
    exact (h t ht).of_mem_alternatives hut
  unfold unionOf
  split
  · rename_i t heq
    exact hall t (by simp [heq])
  · exact .union hall

theorem isFlat_interOf {ts : List TypeExpr} (h : ∀ t ∈ ts, IsFlatMember t) :
    IsFlat (interOf ts) := by
  rw [interOf, flatMap_members_of_not_isInter fun t ht => (h t ht).not_isInter]
  split
  · exact (h _ List.mem_cons_self).flat
  · exact .inter (fun t ht => (h t ht).flat) fun t ht => (h t ht).not_isUnion

theorem IsFlatMember.apply {head : String} {args : List TypeExpr} (h : ∀ t ∈ args, IsFlat t) :
    IsFlatMember (.apply head args) := ⟨.apply h, rfl, rfl⟩

theorem IsFlatMember.object {fields : List (TypeKey × TypeExpr)} (h : ∀ f ∈ fields, IsFlat f.2) :
    IsFlatMember (.object fields) := ⟨.object h, rfl, rfl⟩

theorem forall_mem_concat {α : Type} {p : α → Prop} {xs : List α} {x : α} (h : ∀ y ∈ xs, p y)
    (hx : p x) : ∀ y ∈ xs ++ [x], p y := by
  simpa [or_imp, forall_and] using ⟨h, hx⟩

namespace Level

/-- What was read of a type has no union for a member of an intersection. -/
structure IsFlat (l : Level) : Prop where
  alternatives : ∀ t ∈ l.alternatives, t.IsFlat
  members : ∀ t ∈ l.members, t.IsFlatMember
  operand : ∀ t ∈ l.operand, t.IsFlatMember

theorem IsFlat.empty : IsFlat {} := ⟨by simp, by simp, by simp⟩

theorem IsFlat.alternative {l : Level} (h : l.IsFlat) {t : TypeExpr} (ht : t ∈ l.operand) :
    (l.alternative t).IsFlat :=
  isFlat_interOf (forall_mem_concat h.members (h.operand t ht))

theorem IsFlat.close {l : Level} (h : l.IsFlat) {t : TypeExpr} (ht : l.close = some t) :
    t.IsFlat := by
  obtain ⟨u, hu, rfl⟩ := Option.map_eq_some_iff.1 ht
  exact isFlat_unionOf (forall_mem_concat h.alternatives (h.alternative hu))

/-- A new operand that can be a member takes the place of the one before. -/
theorem IsFlat.setOperand {l : Level} (h : l.IsFlat) {t : TypeExpr} (ht : t.IsFlatMember) :
    IsFlat { l with operand := some t } :=
  ⟨h.alternatives, h.members, by simpa using ht⟩

theorem IsFlat.clearOperand {l : Level} (h : l.IsFlat) : IsFlat { l with operand := none } :=
  ⟨h.alternatives, h.members, by simp⟩

end Level

/-- Before an open bracket no union was read for a member, and the bracket is no parenthesis. -/
inductive Frame.IsFlat : Frame → Prop
  | arguments {head : String} {args : List TypeExpr} {outer : Level}
      (h : ∀ t ∈ args, t.IsFlat) (houter : outer.IsFlat) : IsFlat (.arguments head args outer)
  | field {fields : List (TypeKey × TypeExpr)} {key : TypeKey} {outer : Level}
      (h : ∀ f ∈ fields, f.2.IsFlat) (houter : outer.IsFlat) : IsFlat (.field fields key outer)

namespace State

/-- Nowhere in what was read is a union for a member. -/
inductive IsFlat : State → Prop
  | type {level : Level} {stack : List Frame} (h : level.IsFlat)
      (hstack : ∀ f ∈ stack, f.IsFlat) : IsFlat (.type level stack)
  | key {fields : List (TypeKey × TypeExpr)} {outer : Level} {stack : List Frame}
      (h : ∀ f ∈ fields, f.2.IsFlat) (houter : outer.IsFlat) (hstack : ∀ f ∈ stack, f.IsFlat) :
      IsFlat (.key fields outer stack)
  | mark {fields : List (TypeKey × TypeExpr)} {key : TypeKey} {outer : Level}
      {stack : List Frame} (h : ∀ f ∈ fields, f.2.IsFlat) (houter : outer.IsFlat)
      (hstack : ∀ f ∈ stack, f.IsFlat) : IsFlat (.mark fields key outer stack)

/-- The end of a bracket keeps a state flat. -/
theorem IsFlat.closeFrame {t : TypeExpr} {stack : List Frame} {token : Token} {s : State}
    (ht : t.IsFlat) (hstack : ∀ f ∈ stack, f.IsFlat)
    (h : State.closeFrame t stack token = some s) : s.IsFlat := by
  cases stack with
  | nil => cases token <;> cases h
  | cons frame stack =>
    have hrest : ∀ f ∈ stack, f.IsFlat := fun f hf => hstack f (List.mem_cons_of_mem frame hf)
    cases hstack frame List.mem_cons_self with
    | arguments hargs houter =>
      have hargs := forall_mem_concat hargs ht
      cases token with
      | comma =>
        cases h
        exact .type .empty (List.forall_mem_cons.2 ⟨.arguments hargs houter, hrest⟩)
      | greater =>
        cases h
        exact .type (houter.setOperand (.apply hargs)) hrest
      | _ => cases h
    | @field fields key outer hfields houter =>
      have hfields : ∀ f ∈ fields ++ [(key, t)], f.2.IsFlat := forall_mem_concat hfields ht
      cases token with
      | semi =>
        cases h
        exact .key hfields houter hrest
      | closeBrace =>
        cases h
        exact .type (houter.setOperand (.object hfields)) hrest
      | _ => cases h

theorem IsFlat.stepType {level : Level} {stack : List Frame} {token : Token} {s : State}
    (hlevel : level.IsFlat) (hstack : ∀ f ∈ stack, f.IsFlat) (htoken : token ≠ .openParen)
    (h : State.stepType level stack token = some s) : s.IsFlat := by
  unfold State.stepType at h
  split at h
  · split at h
    · cases h
      exact .type (hlevel.setOperand (.apply (by simp))) hstack
    · exact absurd rfl htoken
    · cases h
      exact .key (by simp) hlevel hstack
    · cases h
  · rename_i t hoperand
    have ht := hlevel.operand t hoperand
    split at h
    · cases h
      exact .type (hlevel.setOperand (.apply (by simpa using ht.flat))) hstack
    · cases h
      exact .type ⟨hlevel.alternatives, forall_mem_concat hlevel.members ht, by simp⟩ hstack
    · cases h
      exact .type ⟨forall_mem_concat hlevel.alternatives (hlevel.alternative hoperand), by simp,
        by simp⟩ hstack
    · split at h
      · cases h
        exact .type .empty (List.forall_mem_cons.2
          ⟨.arguments (by simp) hlevel.clearOperand, hstack⟩)
      · cases h
    · obtain ⟨u, hu, h⟩ := Option.bind_eq_some_iff.1 h
      exact IsFlat.closeFrame (hlevel.close hu) hstack h

/-- A token that is no opening parenthesis keeps a state flat. -/
theorem IsFlat.step {s s' : State} (hs : s.IsFlat) {token : Token} (htoken : token ≠ .openParen)
    (h : State.step s token = some s') : s'.IsFlat := by
  cases hs with
  | type hlevel hstack => exact IsFlat.stepType hlevel hstack htoken h
  | key hfields houter hstack =>
    cases token with
    | word s =>
      cases h
      exact .mark hfields houter hstack
    | closeBrace =>
      cases h
      exact .type (houter.setOperand (.object hfields)) hstack
    | _ => cases h
  | mark hfields houter hstack =>
    cases token with
    | question =>
      cases h
      exact .mark hfields houter hstack
    | colon =>
      cases h
      exact .type .empty (List.forall_mem_cons.2 ⟨.field hfields houter, hstack⟩)
    | _ => cases h

/-- Tokens without an opening parenthesis keep a state flat. -/
theorem IsFlat.run {s s' : State} (hs : s.IsFlat) {tokens : List Token}
    (htokens : Token.openParen ∉ tokens) (h : State.run s tokens = some s') : s'.IsFlat := by
  induction tokens generalizing s with
  | nil =>
    cases h
    exact hs
  | cons token tokens ih =>
    rw [run_cons] at h
    obtain ⟨s₁, hstep, h⟩ := Option.bind_eq_some_iff.1 h
    have htoken : token ≠ .openParen := fun heq => htokens (heq ▸ List.mem_cons_self)
    exact ih (hs.step htoken hstep) (fun hmem => htokens (List.mem_cons_of_mem token hmem)) h

end State

/-- A type that tokens without an opening parenthesis make is flat. -/
theorem isFlat_of_ofTokens {tokens : List Token} (htokens : Token.openParen ∉ tokens)
    {t : TypeExpr} (h : ofTokens tokens = some t) : IsFlat t := by
  obtain ⟨s, hrun, hresult⟩ := Option.bind_eq_some_iff.1 h
  have hs : s.IsFlat := State.IsFlat.run (.type .empty (by simp)) htokens hrun
  cases hs with
  | @type level stack hlevel hstack =>
    cases stack with
    | nil => exact hlevel.close hresult
    | cons f stack => cases hresult
  | key => cases hresult
  | mark => cases hresult

theorem openParen_not_mem_ofChar {c : Char} (h : c ≠ '(') : Token.openParen ∉ Token.ofChar c := by
  unfold Token.ofChar
  split <;> simp_all

theorem openParen_not_mem_ofCharsFrom {cs : List Char} (h : '(' ∉ cs) (word : List Char) :
    Token.openParen ∉ Token.ofCharsFrom word cs := by
  have hword (word : List Char) : Token.openParen ∉ Token.ofWord word := by
    unfold Token.ofWord
    split <;> simp
  fun_induction Token.ofCharsFrom word cs with
  | case1 word => exact hword word
  | case2 word cs ih => simp_all
  | case3 word c cs hbrackets hname ih => exact ih fun hmem => h (List.mem_cons_of_mem c hmem)
  | case4 word c cs hbrackets hname ih =>
    rw [List.mem_cons, not_or] at h
    simp [hword, openParen_not_mem_ofChar (Ne.symm h.1), ih h.2]

/-- A type that is read from a text without an opening parenthesis is flat. -/
theorem isFlat_of_read {s : String} (hs : '(' ∉ s.toList) {t : TypeExpr}
    (h : read s = some t) : IsFlat t :=
  isFlat_of_ofTokens (openParen_not_mem_ofCharsFrom hs []) h

end TypeExpr
end ApiScribe
