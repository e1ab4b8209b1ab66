import ApiScribe.Proofs.Template.Reading

/-! The length of what is read. No part is longer than the characters it is read from, and what is
read of an escape is shorter. -/
namespace ApiScribe
namespace Template

/-- The number of units of a text. -/
def size (cs : List Char) : Nat := (cs.flatMap charUnits).length

theorem size_append (cs ds : List Char) : size (cs ++ ds) = size cs + size ds := by
  simp [size]

theorem size_cons (c : Char) (cs : List Char) :
    size (c :: cs) = (charUnits c).length + size cs := by
  simp [size]

theorem one_le_length_charUnits (c : Char) : 1 ≤ (charUnits c).length := by
  unfold charUnits units
  split <;> simp

/-- The length of a part as it is written; an expression stands between a dollar sign and braces. -/
def Part.weight : Part → Nat
  | .unit _ => 1
  | .expression text => 3 + size text

/-- The length of parts as they are written. -/
def weight : List Part → Nat
  | [] => 0
  | p :: ps => p.weight + weight ps

@[simp] theorem weight_nil : weight [] = 0 := rfl

@[simp] theorem weight_cons (p : Part) (ps : List Part) :
    weight (p :: ps) = p.weight + weight ps := rfl

@[simp] theorem weight_append (ps qs : List Part) : weight (ps ++ qs) = weight ps + weight qs := by
  induction ps with
  | nil => simp
  | cons p ps ih => simp [ih, Nat.add_assoc]

theorem weight_units (us : List UInt16) : weight (us.map .unit) = us.length := by
  induction us with
  | nil => rfl
  | cons u us ih => simp [ih, Part.weight, Nat.add_comm]

/-- The length that is still to come of what was read before. -/
def Mode.pending : Mode → Nat
  | .dollar => 1
  | .codePoint _ => 1
  | .expression chars _ _ _ => 2 + size chars
  | _ => 0

theorem weight_textStep (c : Char) :
    weight (textStep c).1 + (textStep c).2.pending ≤ (charUnits c).length := by
  have hc := one_le_length_charUnits c
  unfold textStep
  split <;> simp_all [Mode.pending, Part.weight, raw, weight_units]

theorem weight_escapeStep {c : Char} {s : List Part × Mode} (h : escapeStep c = some s) :
    weight s.1 + s.2.pending ≤ (charUnits c).length := by
  have hc := one_le_length_charUnits c
  unfold escapeStep at h
  split at h
  all_goals first
  | cases h
    simp_all [Mode.pending, Part.weight]
  | split at h
    · cases h
    · cases h
      simp [Mode.pending, raw, weight_units]

theorem weight_digitStep (left value digit : Nat) :
    weight (digitStep left value digit).1 + (digitStep left value digit).2.pending ≤ 1 := by
  unfold digitStep
  dsimp only
  split <;> simp [Mode.pending, Part.weight]

theorem weight_expressionStep (text : List Char) (depth : Nat) (quote : Option Char)
    (escaped : Bool) (c : Char) :
    weight (expressionStep text depth quote escaped c).1
        + (expressionStep text depth quote escaped c).2.pending ≤
      2 + size text + (charUnits c).length := by
  have hc := one_le_length_charUnits c
  have hlonger : size (text ++ [c]) = size text + (charUnits c).length := by
    simp [size]
  rcases expressionStep_cases text depth quote escaped c with ⟨-, hend⟩ | ⟨_, _, _, hgoes⟩
  · simp only [hend, weight_cons, Part.weight, weight_nil, Mode.pending]
    omega
  · simp only [hgoes, weight_nil, Mode.pending, hlonger]
    omega

/-- What is read with a character is no longer than the character and what was pending. -/
theorem weight_step {m : Mode} {c : Char} {s : List Part × Mode} (h : step m c = some s) :
    weight s.1 + s.2.pending ≤ m.pending + (charUnits c).length := by
  have hc := one_le_length_charUnits c
  have htext := weight_textStep c
  cases m with
  | text =>
    cases h
    exact Nat.le_add_left_of_le htext
  | dollar =>
    have hpending : Mode.dollar.pending = 1 := rfl
    rw [step] at h
    split at h <;> cases h
    · have hopen : (Mode.expression [] 0 none false).pending = 2 := rfl
      simp only [weight_nil]
      omega
    · simp only [weight_cons, Part.weight]
      omega
  | lineEnd =>
    rw [step] at h
    split at h <;> cases h
    · exact Nat.zero_le _
    · exact Nat.le_add_left_of_le htext
  | escape => exact Nat.le_add_left_of_le (weight_escapeStep h)
  | zero =>
    rw [step] at h
    split at h <;> cases h
    exact Nat.le_add_left_of_le htext
  | digits left value =>
    obtain ⟨digit, -, rfl⟩ := Option.map_eq_some_iff.1 h
    exact Nat.le_add_left_of_le (Nat.le_trans (weight_digitStep left value digit) hc)
  | codeUnit =>
    rw [step] at h
    split at h
    · cases h
      exact Nat.le_add_left_of_le hc
    · obtain ⟨digit, -, rfl⟩ := Option.map_eq_some_iff.1 h
      exact Nat.le_add_left_of_le (Nat.le_trans (weight_digitStep 4 0 digit) hc)
  | codePoint value =>
    have hpending : (Mode.codePoint value).pending = 1 := rfl
    rw [step] at h
    split at h
    · obtain ⟨n, -, rfl⟩ := Option.map_eq_some_iff.1 h
      have hn : (units n).length ≤ 2 := by
        unfold units
        split <;> simp
      have htext : Mode.text.pending = 0 := rfl
      simp only [weight_units]
      omega
    · obtain ⟨digit, -, h⟩ := Option.bind_eq_some_iff.1 h
      unfold pointStep at h
      dsimp only at h
      split at h <;> cases h
      exact Nat.le_add_right 1 _
  | expression text depth quote escaped =>
    cases h
    exact weight_expressionStep text depth quote escaped c
  | closed => cases h

/-- What is read of a text is no longer than the text and what was pending. -/
theorem weight_read_append {cs rest : List Char} {m : Mode} {out : List Part}
    (h : read m (cs ++ rest) = some out) :
    ∃ m' front back, read m' rest = some back ∧ out = front ++ back ∧
      weight front + m'.pending ≤ m.pending + size cs := by
  induction cs generalizing m out with
  | nil => exact ⟨m, [], out, h, rfl, by simp [size]⟩
  | cons c cs ih =>
    obtain ⟨s, tail, hs, htail, rfl⟩ := read_cons_eq_some h
    obtain ⟨m', front, back, hback, rfl, hweight⟩ := ih htail
    have hstep := weight_step hs
    refine ⟨m', s.1 ++ front, back, hback, (List.append_assoc _ _ _).symm, ?_⟩
    rw [weight_append, size_cons]
    omega

/-- An escaped backquote is one unit, unless it stands in an expression. -/
theorem weight_read_backquote {m : Mode} {rest : List Char} {out : List Part}
    (h : read m ('\\' :: '\x60' :: rest) = some out) (hrest : rest ≠ [])
    (hout : ∀ text, .expression text ∈ out → '\x60' ∉ text) :
    ∃ m' front back, read m' rest = some back ∧ out = front ++ back ∧
      weight front + m'.pending ≤ m.pending + 1 := by
  obtain ⟨s, tail, hs, htail, rfl⟩ := read_cons_eq_some h
  cases m with
  | text | lineEnd | zero | dollar =>
    cases hs
    obtain ⟨s', back, hs', hback, rfl⟩ := read_cons_eq_some htail
    cases hs'
    exact ⟨.text, _, back, hback, (List.append_assoc _ _ _).symm, by decide⟩
  | escape =>
    cases hs
    obtain ⟨s', back, hs', hback, rfl⟩ := read_cons_eq_some htail
    cases hs'
    obtain ⟨c, cs, rfl⟩ := List.exists_cons_of_ne_nil hrest
    cases hback
  | digits | codeUnit | codePoint | closed => cases hs
  | expression text depth quote escaped =>
    cases hs
    rcases expressionStep_cases text depth quote escaped '\\' with ⟨hend, -⟩ | ⟨_, _, _, hlonger⟩
    · cases hend
    · rw [hlonger] at htail hout
      obtain ⟨t, ht, hmem⟩ := mem_expression_of_read (by decide) htail
      exact absurd hmem (hout t ht)

/-- At the closing backquote nothing is read but what was pending. -/
theorem weight_read_end {m : Mode} {out : List Part} (h : read m ['\x60'] = some out) :
    weight out ≤ m.pending := by
  obtain ⟨s, tail, hs, htail, rfl⟩ := read_cons_eq_some h
  cases m with
  | text | lineEnd | zero | dollar =>
    cases hs
    cases htail
    decide
  | escape =>
    cases hs
    cases htail
  | digits | codeUnit | codePoint | closed => cases hs
  | expression text depth quote escaped =>
    cases hs
    rcases expressionStep_cases text depth quote escaped '\x60' with ⟨hend, -⟩ | ⟨_, _, _, hlonger⟩
    · cases hend
    · rw [hlonger] at htail
      cases htail

end Template
end ApiScribe

/-! The values of parts. Parts whose expressions stand for the values of names are known by their
values. -/
namespace ApiScribe
namespace Template

theorem evaluateParts_units (value : List Char → Option (List UInt16)) (us : List UInt16)
    (ps : List Part) :
    evaluateParts value (us.map .unit ++ ps) = (evaluateParts value ps).map (us ++ ·) := by
  induction us with
  | nil => exact (congrFun Option.map_id _).symm
  | cons u us ih =>
    show (evaluateParts value (us.map .unit ++ ps)).map (u :: ·) = _
    rw [ih, Option.map_map]
    rfl

/-- The value of parts whose expressions are the values of names. -/
def valueWith (name? : List Char → Option String) (values : String → List UInt16)
    (ps : List Part) : Option (List UInt16) :=
  evaluateParts (fun text => (name? text).map values) ps

section
variable {name? : List Char → Option String} {values : String → List UInt16} {us : List UInt16}

theorem valueWith_unit_eq_some {u : UInt16} {ps : List Part} :
    valueWith name? values (.unit u :: ps) = some us ↔
      ∃ vs, valueWith name? values ps = some vs ∧ u :: vs = us := by
  simp [valueWith, evaluateParts]

theorem valueWith_expression_eq_some {text : List Char} {ps : List Part} :
    valueWith name? values (.expression text :: ps) = some us ↔
      ∃ f vs, name? text = some f ∧ valueWith name? values ps = some vs ∧ values f ++ vs = us := by
  simp [valueWith, evaluateParts, Option.bind_eq_some_iff]

end

theorem ne_nil_of_valueWith {name? : List Char → Option String} {p : Part} {ps : List Part}
    {us : List UInt16} (h : valueWith name? (fun _ => [0]) (p :: ps) = some us) : us ≠ [] := by
  cases p with
  | unit u =>
    obtain ⟨vs, -, rfl⟩ := valueWith_unit_eq_some.1 h
    exact List.cons_ne_nil _ _
  | expression text =>
    obtain ⟨f, vs, -, -, rfl⟩ := valueWith_expression_eq_some.1 h
    exact List.cons_ne_nil _ _

/-- No unit has the values of a name. -/
theorem unit_ne_expression {name? : List Char → Option String} {u : UInt16} {text : List Char}
    {ps qs : List Part}
    (h : ∀ values, ∃ us, valueWith name? values (.unit u :: ps) = some us ∧
      valueWith name? values (.expression text :: qs) = some us) : False := by
  obtain ⟨v, hv⟩ : ∃ v : UInt16, v ≠ u := ⟨u + 1, by simp⟩
  obtain ⟨us, hp, hq⟩ := h fun _ => [v]
  obtain ⟨vs, -, rfl⟩ := valueWith_unit_eq_some.1 hp
  obtain ⟨f, ws, -, -, hus⟩ := valueWith_expression_eq_some.1 hq
  exact hv (List.cons.inj hus).1

section
variable {name? : List Char → Option String} {ps qs : List Part}

/-- Units with the same values behind them are the same. -/
theorem tails_of_units {u v : UInt16}
    (h : ∀ values, ∃ us, valueWith name? values (.unit u :: ps) = some us ∧
      valueWith name? values (.unit v :: qs) = some us) :
    u = v ∧ ∀ values, ∃ us, valueWith name? values ps = some us ∧
      valueWith name? values qs = some us := by
  have hboth : ∀ values, u = v ∧ ∃ us, valueWith name? values ps = some us ∧
      valueWith name? values qs = some us := by
    intro values
    obtain ⟨us, hp, hq⟩ := h values
    obtain ⟨vs, hvs, rfl⟩ := valueWith_unit_eq_some.1 hp
    obtain ⟨ws, hws, hus⟩ := valueWith_unit_eq_some.1 hq
    cases hus
    exact ⟨rfl, _, hvs, hws⟩
  exact ⟨(hboth fun _ => []).1, fun values => (hboth values).2⟩

/-- Expressions with the same values behind them have one name. -/
theorem tails_of_expressions {s t : List Char}
    (h : ∀ values, ∃ us, valueWith name? values (.expression s :: ps) = some us ∧
      valueWith name? values (.expression t :: qs) = some us) :
    ∃ f, name? s = some f ∧ name? t = some f ∧ ∀ values, ∃ us,
      valueWith name? values ps = some us ∧ valueWith name? values qs = some us := by
  have hboth : ∀ values, ∃ f g us vs, name? s = some f ∧ name? t = some g ∧
      valueWith name? values ps = some us ∧ valueWith name? values qs = some vs ∧
      values f ++ us = values g ++ vs := by
    intro values
    obtain ⟨us, hp, hq⟩ := h values
    obtain ⟨f, vs, hf, hvs, rfl⟩ := valueWith_expression_eq_some.1 hp
    obtain ⟨g, ws, hg, hws, hus⟩ := valueWith_expression_eq_some.1 hq
    exact ⟨f, g, vs, ws, hf, hg, hvs, hws, hus.symm⟩
  obtain ⟨f, g, _, _, hf, hg, -⟩ := hboth fun _ => []
  have hfg : f = g := by
    by_contra hne
    obtain ⟨_, _, us, vs, hf', hg', -, -, heads⟩ := hboth fun x => if x = f then [0] else [1]
    cases hf.symm.trans hf'
    cases hg.symm.trans hg'
    rw [if_pos rfl, if_neg (Ne.symm hne)] at heads
    exact absurd (List.cons.inj heads).1 (by decide)
  subst hfg
  refine ⟨f, hf, hg, fun values => ?_⟩
  obtain ⟨_, _, us, vs, hf', hg', hus, hvs, heads⟩ := hboth values
  cases hf.symm.trans hf'
  cases hg.symm.trans hg'
  rw [List.append_cancel_left heads] at hus
  exact ⟨vs, hus, hvs⟩

end

/-- Parts that have the same value for all values of their names are the same, if an expression is
known by its name. -/
theorem eq_of_valueWith {name? : List Char → Option String}
    (hname : ∀ s t f, name? s = some f → name? t = some f → s = t) {ps qs : List Part}
    (h : ∀ values, ∃ us, valueWith name? values ps = some us ∧
      valueWith name? values qs = some us) : ps = qs := by
  induction ps generalizing qs with
  | nil =>
    cases qs with
    | nil => rfl
    | cons q qs =>
      obtain ⟨us, hnil, hq⟩ := h fun _ => [0]
      cases hnil
      exact absurd rfl (ne_nil_of_valueWith hq)
  | cons p ps ih =>
    cases qs with
    | nil =>
      obtain ⟨us, hp, hnil⟩ := h fun _ => [0]
      cases hnil
      exact absurd rfl (ne_nil_of_valueWith hp)
    | cons q qs =>
      cases p with
      | unit u =>
        cases q with
        | unit v =>
          obtain ⟨rfl, htails⟩ := tails_of_units h
          rw [ih htails]
        | expression t => exact (unit_ne_expression h).elim
      | expression s =>
        cases q with
        | unit v => exact (unit_ne_expression fun values => (h values).imp fun _ => And.symm).elim
        | expression t =>
          obtain ⟨f, hs, ht, htails⟩ := tails_of_expressions h
          rw [hname s t f hs ht, ih htails]

end Template
end ApiScribe
