import Mathlib.Data.List.Basic
import ApiScribe.Text.Search
import ApiScribe.Render.Builder

/-! Replacing. An occurrence is replaced where it starts, a text in which none starts is kept, and
nothing comes in but the replacement. -/
namespace ApiScribe
namespace Text

theorem startsWith_iff {pattern cs : List Char} :
    startsWith pattern cs = true ↔ pattern <+: cs := by
  rw [startsWith, Option.isSome_iff_exists]
  constructor
  · rintro ⟨rest, h⟩
    exact ⟨rest, (after?_eq_some_iff.1 h).symm⟩
  · rintro ⟨rest, h⟩
    exact ⟨rest, after?_eq_some_iff.2 h.symm⟩

variable {pattern replacement : List Char}

theorem replaceFrom_append {as : List Char} (bs : List Char) :
    replaceFrom pattern replacement as.length (as ++ bs) = replaceAll pattern replacement bs := by
  induction as with
  | nil => rfl
  | cons a as ih => exact ih

/-- An occurrence at the front is replaced. -/
theorem replaceAll_append_self (h : pattern ≠ []) (rest : List Char) :
    replaceAll pattern replacement (pattern ++ rest) =
      replacement ++ replaceAll pattern replacement rest := by
  obtain ⟨p, ps, rfl⟩ := List.exists_cons_of_ne_nil h
  have hstart : startsWith (p :: ps) (p :: (ps ++ rest)) = true :=
    startsWith_iff.2 (List.prefix_append _ _)
  rw [replaceAll, List.cons_append, replaceFrom, if_pos hstart, List.length_cons,
    Nat.add_sub_cancel, replaceFrom_append]

/-- A character at which no occurrence starts is kept. -/
theorem replaceAll_cons {c : Char} {cs : List Char} (h : startsWith pattern (c :: cs) = false) :
    replaceAll pattern replacement (c :: cs) = c :: replaceAll pattern replacement cs := by
  rw [replaceAll, replaceFrom, if_neg (by simp [h])]
  rfl

/-- Characters that are not the first of the pattern are kept. -/
theorem replaceAll_append {p : Char} {as : List Char} (h : p ∉ as) (bs : List Char) :
    replaceAll (p :: pattern) replacement (as ++ bs) =
      as ++ replaceAll (p :: pattern) replacement bs := by
  induction as with
  | nil => rfl
  | cons a as ih =>
    rw [List.mem_cons, not_or] at h
    have hstart : startsWith (p :: pattern) (a :: (as ++ bs)) = false := by
      simp [startsWith, after?, h.1]
    rw [List.cons_append, replaceAll_cons hstart, ih h.2, List.cons_append]

theorem replaceAll_of_not_mem {p : Char} {cs : List Char} (h : p ∉ cs) :
    replaceAll (p :: pattern) replacement cs = cs := by
  have hkept : replaceAll (p :: pattern) replacement (cs ++ []) = cs ++ [] := replaceAll_append h []
  rwa [List.append_nil] at hkept

theorem mem_replaceFrom {skip : Nat} {cs : List Char} {c : Char}
    (h : c ∈ replaceFrom pattern replacement skip cs) : c ∈ cs ∨ c ∈ replacement := by
  induction cs generalizing skip with
  | nil => cases h
  | cons d cs ih =>
    unfold replaceFrom at h
    split at h
    · exact (ih h).imp_left (List.mem_cons_of_mem d)
    · split at h
      · rcases List.mem_append.1 h with h | h
        · exact .inr h
        · exact (ih h).imp_left (List.mem_cons_of_mem d)
      · rcases List.mem_cons.1 h with rfl | h
        · exact .inl List.mem_cons_self
        · exact (ih h).imp_left (List.mem_cons_of_mem d)

/-- What stands neither in texts nor in what separates them. -/
theorem not_mem_intercalate {c : Char} (sep : String) (hsep : c ∉ sep.toList)
    {xs : List String} (h : ∀ x ∈ xs, c ∉ x.toList) : c ∉ (sep.intercalate xs).toList := by
  induction xs with
  | nil => simp
  | cons x xs ih =>
    have hx := h x List.mem_cons_self
    have ih := ih fun y hy => h y (List.mem_cons_of_mem x hy)
    cases xs with
    | nil => simpa using hx
    | cons y xs =>
      rw [String.intercalate_cons_cons, String.toList_append, String.toList_append]
      simp only [List.mem_append, not_or]
      exact ⟨⟨hx, hsep⟩, ih⟩

end Text
end ApiScribe

/-! Texts that stand in other ones. What stands in a part stands in the whole that the part is
joined into, and so lines stand in the text of their file. -/
namespace ApiScribe

/-- A text stands in another one. -/
def StandsIn (part whole : String) : Prop := part.toList <:+: whole.toList

theorem StandsIn.refl (s : String) : StandsIn s s := List.infix_refl _

theorem StandsIn.trans {s t u : String} (hst : StandsIn s t) (htu : StandsIn t u) :
    StandsIn s u := List.IsInfix.trans hst htu

theorem StandsIn.append_left {s t : String} (h : StandsIn s t) (u : String) :
    StandsIn s (u ++ t) := by
  rw [StandsIn, String.toList_append]
  exact List.IsInfix.trans h (List.suffix_append _ _).isInfix

theorem StandsIn.append_right {s t : String} (h : StandsIn s t) (u : String) :
    StandsIn s (t ++ u) := by
  rw [StandsIn, String.toList_append]
  exact List.IsInfix.trans h (List.prefix_append _ _).isInfix

theorem standsIn_join {s : String} {ss : List String} (h : s ∈ ss) :
    StandsIn s (String.join ss) := by
  induction ss with
  | nil => cases h
  | cons t ss ih =>
    rw [String.join_cons]
    rcases List.mem_cons.1 h with rfl | h
    · exact (StandsIn.refl s).append_right _
    · exact (ih h).append_left _

theorem standsIn_intercalate {s : String} (sep : String) {ss : List String} (h : s ∈ ss) :
    StandsIn s (sep.intercalate ss) := by
  induction ss with
  | nil => cases h
  | cons t ss ih =>
    cases ss with
    | nil =>
      rw [List.mem_singleton.1 h, String.intercalate_singleton]
      exact StandsIn.refl t
    | cons u ss =>
      rw [String.intercalate_cons_cons]
      rcases List.mem_cons.1 h with rfl | h
      · exact ((StandsIn.refl s).append_right _).append_right _
      · exact (ih h).append_left _

theorem Render.toList_fileText (lines : List String) :
    (fileText lines).toList = (lines.map String.toList).flatMap (· ++ ['\n']) := by
  simp [fileText, String.toList_join, List.flatMap_map]

theorem Render.standsIn_fileText {line : String} {lines : List String} (h : line ∈ lines) :
    StandsIn line (fileText lines) :=
  ((StandsIn.refl line).append_right "\n").trans (standsIn_join (List.mem_map_of_mem h))

end ApiScribe
