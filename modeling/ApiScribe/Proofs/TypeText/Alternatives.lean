import ApiScribe.Proofs.Json.Quoted

/-! The alternatives in the text of a type: what stands between its bars. A bar in brackets or in
quotes separates nothing of the type itself, and blanks outside quotes do not count. -/
namespace ApiScribe
namespace TypeText

/-- Whether a reader is inside quotes, and there behind a backslash. -/
inductive Quoting
  | off
  | on
  | escaped
  deriving Repr, DecidableEq

/-- The number of brackets that are open behind a character. -/
def depthAfter (depth : Nat) (c : Char) : Nat :=
  if ['<', '(', '[', '\x7b'].contains c then depth + 1
  else if ['>', ')', ']', '\x7d'].contains c then depth - 1
  else depth

/-- The alternatives of a text inside brackets and quotes; `word` holds what was read of the one
under way, last first. -/
def alternativesFrom (depth : Nat) : Quoting → List Char → List Char → List (List Char)
  | _, word, [] => [word.reverse]
  | .escaped, word, c :: cs => alternativesFrom depth .on (c :: word) cs
  | .on, word, c :: cs =>
    alternativesFrom depth (if c = '\\' then .escaped else if c = '"' then .off else .on)
      (c :: word) cs
  | .off, word, c :: cs =>
    if c = ' ' then alternativesFrom depth .off word cs
    else if c = '|' && depth = 0 then word.reverse :: alternativesFrom depth .off [] cs
    else
      alternativesFrom (depthAfter depth c) (if c = '"' then .on else .off) (c :: word) cs

/-- The alternatives of a text. -/
def alternatives (s : String) : List String :=
  (alternativesFrom 0 .off [] s.toList).map String.ofList

example : alternatives "Array<A | null> | \"a | b\" | null" =
    ["Array<A|null>", "\"a | b\"", "null"] := by decide

/-- A character that opens, closes, quotes or separates nothing. -/
def isPlainChar (c : Char) : Bool :=
  !(['<', '(', '[', '\x7b', '>', ')', ']', '\x7d', ' ', '"', '\\', '|'].contains c)

/-- Characters that are read as one piece wherever a type is read; what is kept of them are the
other ones. -/
def IsPiece (cs kept : List Char) : Prop :=
  ∀ depth word rest, alternativesFrom depth .off word (cs ++ rest) =
    alternativesFrom depth .off (kept.reverse ++ word) rest

/-- Characters that are read as one piece inside brackets. -/
def IsInner (cs kept : List Char) : Prop :=
  ∀ depth word rest, alternativesFrom (depth + 1) .off word (cs ++ rest) =
    alternativesFrom (depth + 1) .off (kept.reverse ++ word) rest

/-- Characters that are read as one piece inside quotes. -/
def IsQuoted (cs : List Char) : Prop :=
  ∀ depth word rest, alternativesFrom depth .on word (cs ++ rest) =
    alternativesFrom depth .on (cs.reverse ++ word) rest

/-- Characters behind which a type is read as at its start: alternatives are complete, and what is
read next belongs to the last one. -/
def Closes (cs : List Char) : Prop :=
  ∀ word, ∃ done last, ∀ rest, alternativesFrom 0 .off word (cs ++ rest) =
    done ++ alternativesFrom 0 .off last rest

variable {cs ds kept kept' : List Char}

theorem IsPiece.append (h : IsPiece cs kept) (h' : IsPiece ds kept') :
    IsPiece (cs ++ ds) (kept ++ kept') := by
  intro depth word rest
  rw [List.append_assoc, h, h', List.reverse_append, List.append_assoc]

theorem IsPiece.isInner (h : IsPiece cs kept) : IsInner cs kept := fun depth => h (depth + 1)

theorem IsPiece.closes (h : IsPiece cs kept) : Closes cs :=
  fun word => ⟨[], kept.reverse ++ word, fun rest => h 0 word rest⟩

theorem IsInner.append (h : IsInner cs kept) (h' : IsInner ds kept') :
    IsInner (cs ++ ds) (kept ++ kept') := by
  intro depth word rest
  rw [List.append_assoc, h, h', List.reverse_append, List.append_assoc]

theorem IsQuoted.append (h : IsQuoted cs) (h' : IsQuoted ds) : IsQuoted (cs ++ ds) := by
  intro depth word rest
  rw [List.append_assoc, h, h', List.reverse_append, List.append_assoc]

theorem isPiece_of_isPlainChar (h : ∀ c ∈ cs, isPlainChar c = true) : IsPiece cs cs := by
  intro depth word rest
  induction cs generalizing word with
  | nil => rfl
  | cons c cs ih =>
    obtain ⟨hc, hcs⟩ := List.forall_mem_cons.1 h
    simp only [isPlainChar, List.contains_eq_mem, List.mem_cons, List.not_mem_nil, or_false,
      not_or, Bool.not_eq_true', decide_eq_false_iff_not] at hc
    have hstep : alternativesFrom depth .off word (c :: (cs ++ rest)) =
        alternativesFrom depth .off (c :: word) (cs ++ rest) := by
      simp [alternativesFrom, depthAfter, hc]
    rw [List.cons_append, hstep, ih hcs, List.reverse_cons, List.append_assoc]
    rfl

theorem isPiece_of_all (h : cs.all isPlainChar = true) : IsPiece cs cs :=
  isPiece_of_isPlainChar (List.all_eq_true.1 h)

theorem isQuoted_of_ne (h : ∀ c ∈ cs, c ≠ '"' ∧ c ≠ '\\') : IsQuoted cs := by
  intro depth word rest
  induction cs generalizing word with
  | nil => rfl
  | cons c cs ih =>
    obtain ⟨⟨hquote, hslash⟩, hcs⟩ := List.forall_mem_cons.1 h
    rw [List.cons_append, alternativesFrom, if_neg hslash, if_neg hquote, ih hcs,
      List.reverse_cons, List.append_assoc]
    rfl

theorem isQuoted_of_isPlainChar (h : ∀ c ∈ cs, isPlainChar c = true) : IsQuoted cs := by
  refine isQuoted_of_ne fun c hc => ⟨?_, ?_⟩ <;>
    (rintro rfl; exact absurd (h _ hc) (by decide))

theorem isQuoted_escape (c : Char) : IsQuoted ['\\', c] := fun _ _ _ => rfl

/-- A quoted text is one piece, if nothing inside ends it. -/
theorem IsQuoted.isPiece (h : IsQuoted cs) : IsPiece ('"' :: cs ++ ['"']) ('"' :: cs ++ ['"']) := by
  intro depth word rest
  have hopen : alternativesFrom depth .off word ('"' :: (cs ++ '"' :: rest)) =
      alternativesFrom depth .on ('"' :: word) (cs ++ '"' :: rest) := by
    simp [alternativesFrom, depthAfter]
  simp only [List.cons_append, List.append_assoc, List.nil_append, hopen]
  rw [h]
  simp [alternativesFrom]

theorem isQuoted_unitEscape (n : Nat) : IsQuoted (Json.unitEscape n) := by
  have hdigit : ∀ n, Json.hexDigit n ≠ '"' ∧ Json.hexDigit n ≠ '\\' := by
    intro n
    have hall : ∀ m < 16, (Nat.toDigits 16 m).headD '0' ≠ '"' ∧
        (Nat.toDigits 16 m).headD '0' ≠ '\\' := by decide
    exact hall _ (Nat.mod_lt n (by decide))
  refine (isQuoted_escape 'u').append (isQuoted_of_ne ?_)
  simp [hdigit]

theorem isQuoted_quotedChar (c : Char) : IsQuoted (Json.quotedChar false c) := by
  unfold Json.quotedChar
  split
  · exact isQuoted_escape _
  · next hshort =>
    split
    · refine isQuoted_of_ne (List.forall_mem_singleton.2 ⟨?_, ?_⟩) <;>
        (rintro rfl; cases hshort)
    · unfold Json.charEscape
      dsimp only
      split
      · exact isQuoted_unitEscape _
      · exact (isQuoted_unitEscape _).append (isQuoted_unitEscape _)

/-- A string between quotes is one piece, whatever stands in it. -/
theorem isPiece_quotedRaw (s : String) :
    IsPiece (Json.quotedRaw s).toList (Json.quotedRaw s).toList := by
  have hquoted : ∀ cs : List Char, IsQuoted (cs.flatMap (Json.quotedChar false)) := by
    intro cs
    induction cs with
    | nil => exact fun _ _ _ => rfl
    | cons c cs ih => exact (isQuoted_quotedChar c).append ih
  rw [Json.quotedRaw, String.toList_ofList]
  exact (hquoted s.toList).isPiece

/-- What is one piece inside brackets is one piece together with them. -/
theorem IsInner.bracketed {p : Char × Char} (hp : p ∈ [('<', '>'), ('(', ')')])
    (h : IsInner cs kept) : IsPiece (p.1 :: cs ++ [p.2]) (p.1 :: kept ++ [p.2]) := by
  intro depth word rest
  have hopen : alternativesFrom depth .off word (p.1 :: (cs ++ p.2 :: rest)) =
      alternativesFrom (depth + 1) .off (p.1 :: word) (cs ++ p.2 :: rest) := by
    rcases hp with _ | ⟨_, _ | ⟨_, hp⟩⟩
    · simp [alternativesFrom, depthAfter]
    · simp [alternativesFrom, depthAfter]
    · cases hp
  have hclose : ∀ word, alternativesFrom (depth + 1) .off word (p.2 :: rest) =
      alternativesFrom depth .off (p.2 :: word) rest := by
    intro word
    rcases hp with _ | ⟨_, _ | ⟨_, hp⟩⟩
    · simp [alternativesFrom, depthAfter]
    · simp [alternativesFrom, depthAfter]
    · cases hp
  simp only [List.cons_append, List.append_assoc, List.nil_append, hopen]
  rw [h, hclose]
  simp

theorem isInner_bar : IsInner " | ".toList ['|'] := fun _ _ _ => by
  simp [alternativesFrom, depthAfter]

/-- A bar behind a complete type ends its last alternative. -/
theorem Closes.alternativesFrom_bar (h : Closes cs) (word ds : List Char) :
    alternativesFrom 0 .off word (cs ++ (" | ".toList ++ ds)) =
      alternativesFrom 0 .off word cs ++ alternativesFrom 0 .off [] ds := by
  obtain ⟨done, last, hread⟩ := h word
  have hend := hread []
  rw [List.append_nil] at hend
  rw [hread, hend]
  simp [alternativesFrom]

theorem alternatives_bar {s : String} (h : Closes s.toList) (t : String) :
    alternatives (s ++ " | " ++ t) = alternatives s ++ alternatives t := by
  simp only [alternatives, String.toList_append, List.append_assoc, h.alternativesFrom_bar,
    List.map_append]

theorem Closes.bar (h : Closes cs) (h' : Closes ds) : Closes (cs ++ (" | ".toList ++ ds)) := by
  intro word
  obtain ⟨done, last, hread⟩ := h' []
  refine ⟨alternativesFrom 0 .off word cs ++ done, last, fun rest => ?_⟩
  rw [List.append_assoc, List.append_assoc, h.alternativesFrom_bar, hread, List.append_assoc]

/-- Types with bars between them, if there are any, are complete, and their alternatives are all
of theirs. -/
theorem alternatives_intercalate {ss : List String} (hne : ss ≠ [])
    (h : ∀ s ∈ ss, Closes s.toList) : Closes (" | ".intercalate ss).toList ∧
      alternatives (" | ".intercalate ss) = ss.flatMap alternatives := by
  induction ss with
  | nil => exact absurd rfl hne
  | cons s ss ih =>
    obtain ⟨hs, hss⟩ := List.forall_mem_cons.1 h
    cases ss with
    | nil => simpa using hs
    | cons t ss =>
      obtain ⟨hcloses, halternatives⟩ := ih (by simp) hss
      rw [String.intercalate_cons_cons, alternatives_bar hs, halternatives]
      refine ⟨?_, rfl⟩
      rw [String.toList_append, String.toList_append, List.append_assoc]
      exact hs.bar hcloses

theorem isInner_intercalate {ss : List String} (h : ∀ s ∈ ss, ∃ kept, IsInner s.toList kept) :
    ∃ kept, IsInner (" | ".intercalate ss).toList kept := by
  induction ss with
  | nil => exact ⟨[], fun _ _ _ => rfl⟩
  | cons s ss ih =>
    obtain ⟨⟨kept, hs⟩, hss⟩ := List.forall_mem_cons.1 h
    obtain ⟨kept', hrest⟩ := ih hss
    cases ss with
    | nil => exact ⟨kept, by simpa using hs⟩
    | cons t ss =>
      refine ⟨kept ++ ['|'] ++ kept', ?_⟩
      rw [String.intercalate_cons_cons, String.toList_append, String.toList_append]
      exact (hs.append isInner_bar).append hrest

/-- A word without signs that is not spelled as null. -/
def isPlainWord (s : String) : Bool := s.toList.all isPlainChar && s != "null"

/-- The text of a type that can be read wherever it stands, and offers no null. -/
structure ReadsWithoutNull (s : String) : Prop where
  inner : ∃ kept, IsInner s.toList kept
  closes : Closes s.toList
  not_null : "null" ∉ alternatives s

theorem IsPiece.readsWithoutNull {s : String} {cs kept : List Char} (h : IsPiece cs kept)
    (hs : s.toList = cs) (hnull : kept ≠ "null".toList) : ReadsWithoutNull s where
  inner := ⟨kept, hs ▸ h.isInner⟩
  closes := hs ▸ h.closes
  not_null := by
    have hread := h 0 [] []
    rw [List.append_nil, List.append_nil, ← hs] at hread
    simp only [alternatives, hread, alternativesFrom, List.reverse_reverse, List.map_cons,
      List.map_nil, List.mem_singleton]
    intro hkept
    exact hnull (by rw [hkept, String.toList_ofList])

theorem isPlainWord_iff {s : String} :
    isPlainWord s = true ↔ (∀ c ∈ s.toList, isPlainChar c = true) ∧ s ≠ "null" := by
  simp only [isPlainWord, Bool.and_eq_true, List.all_eq_true, bne_iff_ne]

theorem readsWithoutNull_of_isPlainWord {s : String} (h : isPlainWord s = true) :
    ReadsWithoutNull s := by
  obtain ⟨hchars, hnull⟩ := isPlainWord_iff.1 h
  exact (isPiece_of_isPlainChar hchars).readsWithoutNull rfl
    fun heq => hnull (String.toList_inj.1 heq)

theorem readsWithoutNull_intercalate {ss : List String} (h : ∀ s ∈ ss, ReadsWithoutNull s) :
    ReadsWithoutNull (" | ".intercalate ss) := by
  by_cases hne : ss = []
  · rw [hne]
    exact readsWithoutNull_of_isPlainWord (by decide)
  · obtain ⟨hcloses, halternatives⟩ := alternatives_intercalate hne fun s hs => (h s hs).closes
    refine ⟨isInner_intercalate fun s hs => (h s hs).inner, hcloses, ?_⟩
    rw [halternatives, List.mem_flatMap]
    rintro ⟨s, hs, hnull⟩
    exact (h s hs).not_null hnull

end TypeText
end ApiScribe
