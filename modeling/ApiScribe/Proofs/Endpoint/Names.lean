import ApiScribe.Endpoint.Name
import ApiScribe.Proofs.Naming.Unique
import ApiScribe.Proofs.Naming.Words

/-! Names of endpoints. Export names are new whenever they are chosen, they hold no slash, and they
hold more letters and digits than the operation name: the scope stands in front of it. Where the
operation starts in them they have a capital. -/
namespace ApiScribe
namespace Endpoint

open Naming

/-- Serial numbers are numbers behind a base with its underscore. -/
theorem firstSerial_eq_firstFree (used : List String) (base : String) (fuel index : Nat) :
    firstSerial used base fuel index = firstFree used (base ++ "_") fuel index := by
  induction fuel generalizing index with
  | zero => rfl
  | succ fuel ih => simp only [firstSerial, firstFree, ih]

/-- Among more serial names than used names one is free, so the search finds the first. -/
theorem exists_firstSerial (used : List String) (base : String) (index : Nat) :
    ∃ n, firstSerial used base used.length index = base ++ "_" ++ toString n ∧
      IsFirstFree used (base ++ "_") index n := by
  rw [firstSerial_eq_firstFree]
  exact exists_firstFree used (base ++ "_") index

theorem firstSerial_fresh (used : List String) (base : String) (index : Nat) :
    firstSerial used base used.length index ∉ used := by
  obtain ⟨n, hn, hfree⟩ := exists_firstSerial used base index
  rw [hn]
  exact hfree.free

theorem chooseName_fresh (used names : List String) : chooseName used names ∉ used := by
  induction names with
  | nil => exact firstSerial_fresh _ _ _
  | cons name names ih =>
    cases names with
    | nil =>
      simp only [chooseName]
      split
      · exact firstSerial_fresh _ _ _
      · assumption
    | cons other names =>
      simp only [chooseName]
      split
      · exact ih
      · assumption

theorem exportName_nameFrom_not_mem (used : List String) (es : List Endpoint) {s : String}
    (h : s ∈ (nameFrom used es).map exportName) : s ∉ used := by
  induction es generalizing used with
  | nil => simp [nameFrom] at h
  | cons e es ih =>
    simp only [nameFrom, List.map_cons, List.mem_cons] at h
    rcases h with rfl | h
    · exact chooseName_fresh _ _
    · exact fun hs => ih _ h (List.mem_cons_of_mem _ hs)

/-- No two endpoints are exported under one name. -/
theorem exportName_nameFrom_nodup (used : List String) (es : List Endpoint) :
    ((nameFrom used es).map exportName).Nodup := by
  induction es generalizing used with
  | nil => exact List.nodup_nil
  | cons e es ih =>
    simp only [nameFrom, List.map_cons, List.nodup_cons]
    exact ⟨fun h => exportName_nameFrom_not_mem _ es h List.mem_cons_self, ih _⟩

/-- Naming changes the export name and the builder name only. -/
theorem exists_of_mem_nameFrom (used : List String) (es : List Endpoint) {e : Endpoint}
    (h : e ∈ nameFrom used es) :
    ∃ d ∈ es, ∃ used', e = d.withName (chooseName used' d.nameCandidates) := by
  induction es generalizing used with
  | nil => simp [nameFrom] at h
  | cons d es ih =>
    rcases List.mem_cons.1 h with rfl | h
    · exact ⟨d, List.mem_cons_self, used, rfl⟩
    · obtain ⟨d', hd, used', he⟩ := ih _ h
      exact ⟨d', List.mem_cons_of_mem d hd, used', he⟩

theorem map_nameFrom {α : Type} (f : Endpoint → α) (hf : ∀ e name, f (e.withName name) = f e)
    (used : List String) (es : List Endpoint) : (nameFrom used es).map f = es.map f := by
  induction es generalizing used with
  | nil => rfl
  | cons e es ih => simp only [nameFrom, List.map_cons, hf, ih]

/-- A name without a slash that holds more than a number of letters and digits. -/
def Outgrows (n : Nat) (s : String) : Prop := '/' ∉ s.toList ∧ n < s.toList.countP isWordChar

theorem slash_not_mem_of_isWordText {cs : List Char} (h : IsWordText cs) : '/' ∉ cs :=
  fun hc => absurd (h _ hc) (by decide)

theorem isWordText_pascal (s : String) : IsWordText (pascal s).toList := by
  simpa [pascal] using isWordText_pascalChars s.toList

theorem isWordText_camel (s : String) : IsWordText (camel s).toList := by
  simpa [camel] using isWordText_camelChars s.toList

theorem countP_pascal (s : String) :
    (pascal s).toList.countP isWordChar = s.toList.countP isWordChar := by
  rw [countP_of_isWordText (isWordText_pascal s)]
  simp [pascal, length_pascalChars]

theorem countP_of_blank {s : String} (h : Text.blank s = true) :
    s.toList.countP isWordChar = 0 := by
  rw [List.countP_eq_zero]
  intro c hc
  rw [not_isWordChar_of_isBlank (List.all_eq_true.1 h c hc)]
  simp

theorem Outgrows.append {n : Nat} {s t : String} (h : Outgrows n s) (ht : '/' ∉ t.toList) :
    Outgrows n (s ++ t) := by
  refine ⟨?_, ?_⟩
  · simp [h.1, ht]
  · simp only [String.toList_append, List.countP_append]
    exact Nat.lt_add_right _ h.2

theorem Outgrows.normalizeName {n : Nat} {s : String} (h : Outgrows n s) :
    Outgrows n (normalizeName s) := by
  unfold Endpoint.normalizeName
  split
  · next hb =>
    have := h.2
    rw [countP_of_blank hb] at this
    omega
  · split
    · refine ⟨?_, ?_⟩
      · simpa using slash_not_mem_of_isWordText (isWordText_pascal s)
      · simp only [String.toList_append, List.countP_append, countP_pascal]
        exact Nat.lt_add_left _ h.2
    · exact h

theorem Outgrows.safeName {n : Nat} {s : String} (h : Outgrows n s) :
    Outgrows n (safeName s) := by
  have hn := h.normalizeName
  simp only [Endpoint.safeName]
  split
  · refine ⟨?_, ?_⟩
    · simpa using slash_not_mem_of_isWordText (isWordText_pascal _)
    · simp only [String.toList_append, List.countP_append, countP_pascal]
      exact Nat.lt_add_left _ hn.2
  · exact hn

/-- A normalized name of letters and digits is made of letters and digits, and is not empty. -/
theorem normalizeName_of_isWordText {s : String} (h : IsWordText s.toList) :
    IsWordText (normalizeName s).toList ∧ 0 < (normalizeName s).toList.length ∧
      s.toList.length ≤ (normalizeName s).toList.length := by
  unfold normalizeName
  split
  · next hb =>
    have hs := countP_of_blank hb
    rw [countP_of_isWordText h] at hs
    refine ⟨by decide, by decide, ?_⟩
    omega
  · next hb =>
    split
    · refine ⟨?_, ?_, ?_⟩
      · rw [String.toList_append]
        exact IsWordText.append (by decide) (isWordText_pascal s)
      · simp
      · have hp := countP_pascal s
        rw [countP_of_isWordText h, countP_of_isWordText (isWordText_pascal s)] at hp
        simp only [String.toList_append, List.length_append]
        omega
    · refine ⟨h, ?_, le_refl _⟩
      rw [List.length_pos_iff]
      intro hs
      exact hb (by simp [Text.blank, Text.isAllBlank, hs])

/-- A scope in front of an action outgrows the operation name that the action is made of. -/
theorem outgrows_prefix_action {e : Endpoint} (h : IsWordText e.operationName.toList)
    (count : Nat) :
    Outgrows e.operationName.toList.length (scopePrefix e.scope count ++ e.action) := by
  obtain ⟨hw, hpos, -⟩ := normalizeName_of_isWordText
    (isWordText_camel ("-".intercalate (e.scope.drop (e.scope.length - count))))
  obtain ⟨ha, -, hle⟩ := normalizeName_of_isWordText (isWordText_camel e.operationName)
  have hcamel : (camel e.operationName).toList.length = e.operationName.toList.length := by
    rw [← countP_of_isWordText h]
    simp [camel, length_camelChars]
  refine ⟨?_, ?_⟩
  · rw [String.toList_append, List.mem_append, not_or]
    exact ⟨slash_not_mem_of_isWordText hw, slash_not_mem_of_isWordText (isWordText_pascal _)⟩
  · simp only [String.toList_append, List.countP_append, scopePrefix, action, countP_pascal]
    rw [countP_of_isWordText hw, countP_of_isWordText ha]
    omega

/-- Every name that is tried for an endpoint outgrows its operation name. -/
theorem outgrows_of_mem_nameCandidates {e : Endpoint} (h : IsWordText e.operationName.toList)
    {s : String} (hs : s ∈ e.nameCandidates) : Outgrows e.operationName.toList.length s := by
  have h1 := (outgrows_prefix_action h 1).safeName
  have h2 := outgrows_prefix_action h 2
  have h3 := (h2.append (slash_not_mem_of_isWordText
    (isWordText_pascal (Text.lower e.method)))).safeName
  have hfields : '/' ∉ (String.join (e.pathFields.map pascal)).toList := by
    rw [String.toList_join]
    intro hc
    obtain ⟨t, ht, hc⟩ := List.mem_flatMap.1 hc
    obtain ⟨f, -, rfl⟩ := List.mem_map.1 ht
    exact slash_not_mem_of_isWordText (isWordText_pascal f) hc
  have h4 := ((h3.append (t := "By") (by decide)).append hfields).safeName
  simp only [nameCandidates, List.mem_append, List.mem_cons, List.not_mem_nil, or_false] at hs
  rcases hs with (hs | hs | hs) | hs
  · rw [hs]
    exact h1
  · rw [hs]
    exact h2.safeName
  · rw [hs]
    exact h3
  · split at hs
    · simp at hs
    · rw [List.mem_singleton.1 hs]
      exact h4

theorem Outgrows.firstSerial {n : Nat} {base : String} (h : Outgrows n base)
    (used : List String) (index : Nat) :
    Outgrows n (firstSerial used base used.length index) := by
  obtain ⟨k, hk, -⟩ := exists_firstSerial used base index
  rw [hk]
  refine (h.append (t := "_") (by decide)).append ?_
  exact fun hc => absurd (Naming.isDigit_of_mem_toString hc) (by decide)

/-- The name that is chosen is one of the candidates or has a serial number. -/
theorem chooseName_of_forall {P : String → Prop} {names : List String} (hne : names ≠ [])
    (h : ∀ s ∈ names, P s)
    (hserial : ∀ s, P s → ∀ used index, P (firstSerial used s used.length index))
    (used : List String) : P (chooseName used names) := by
  induction names with
  | nil => exact absurd rfl hne
  | cons name names ih =>
    have hname := h name List.mem_cons_self
    cases names with
    | nil =>
      simp only [chooseName]
      split
      · exact hserial name hname ..
      · exact hname
    | cons other names =>
      simp only [chooseName]
      split
      · exact ih (by simp) fun s hs => h s (List.mem_cons_of_mem name hs)
      · exact hname

/-- The export name of an endpoint outgrows its operation name. -/
theorem outgrows_chosen {e : Endpoint} (h : IsWordText e.operationName.toList)
    (used : List String) :
    Outgrows e.operationName.toList.length (chooseName used e.nameCandidates) :=
  chooseName_of_forall (by simp [nameCandidates]) (fun _ => outgrows_of_mem_nameCandidates h)
    (fun _ h => h.firstSerial) used

/-- A name with a capital in it and no digit in front. -/
structure IsTitled (s : String) : Prop where
  capital : ∃ c ∈ s.toList, c.isUpper = true
  front : s.toList.head?.any Char.isDigit = false

theorem IsTitled.append {s : String} (h : IsTitled s) (t : String) : IsTitled (s ++ t) := by
  obtain ⟨c, hc, hcapital⟩ := h.capital
  refine ⟨⟨c, by simp [hc], hcapital⟩, ?_⟩
  have hne := List.ne_nil_of_mem hc
  rw [String.toList_append, List.head?_append_of_ne_nil _ hne]
  exact h.front

/-- What is titled is a safe name. -/
theorem IsTitled.safeName_eq {s : String} (h : IsTitled s) : safeName s = s := by
  obtain ⟨c, hc, hcapital⟩ := h.capital
  have hblank : Text.blank s = false := by
    rw [← Bool.not_eq_true]
    intro hblank
    have hnone := List.countP_eq_zero.1 (countP_of_blank hblank) c hc
    rw [isUpper_iff] at hcapital
    rw [isWordChar_iff] at hnone
    omega
  have hnormal : normalizeName s = s := by
    simp [normalizeName, hblank, h.front]
  have hreserved : s ∉ reservedWords := by
    have hsmall : ∀ w ∈ reservedWords, w.toList.any Char.isUpper = false := by decide
    exact fun hmem => List.any_eq_false.1 (hsmall s hmem) c hc hcapital
  simp [safeName, hnormal, hreserved]

theorem front_normalizeName (s : String) :
    (normalizeName s).toList.head?.any Char.isDigit = false := by
  unfold normalizeName
  split
  · decide
  · split
    · rw [String.toList_append, List.head?_append_of_ne_nil _ (by decide)]
      decide
    · next h => exact eq_false_of_ne_true h

/-- A scope in front of an action makes a title: the action starts with a capital. -/
theorem isTitled_prefix_action (e : Endpoint) (count : Nat) :
    IsTitled (scopePrefix e.scope count ++ e.action) := by
  obtain ⟨-, hpos, -⟩ := normalizeName_of_isWordText
    (isWordText_camel ("-".intercalate (e.scope.drop (e.scope.length - count))))
  obtain ⟨hword, hne, -⟩ := normalizeName_of_isWordText (isWordText_camel e.operationName)
  have hfront := front_normalizeName (camel e.operationName)
  constructor
  · cases hchars : (normalizeName (camel e.operationName)).toList with
    | nil =>
      rw [hchars] at hne
      cases hne
    | cons c cs =>
      have hc : isWordChar c = true := hword c (by rw [hchars]; exact List.mem_cons_self)
      have hdigit : ¬ c.isDigit = true := by simpa [hchars] using hfront
      have hhead : e.action.toList.head? = some c.toUpper := by
        rw [action, pascal, String.toList_ofList, hchars, head?_pascalChars cs hc]
      refine ⟨c.toUpper, ?_, ?_⟩
      · rw [String.toList_append]
        exact List.mem_append_right _ (List.mem_of_mem_head? hhead)
      · rw [isUpper_iff, toNat_toUpper]
        rw [isWordChar_iff] at hc
        rw [isDigit_iff] at hdigit
        split <;> omega
  · rw [scopePrefix, String.toList_append,
      List.head?_append_of_ne_nil _ (List.length_pos_iff.1 hpos)]
    exact front_normalizeName _

/-- Titles are safe, so candidates are what they are put together from. -/
theorem nameCandidates_eq (e : Endpoint) :
    let wide := scopePrefix e.scope 2 ++ e.action
    let withMethod := wide ++ pascal (Text.lower e.method)
    e.nameCandidates = [scopePrefix e.scope 1 ++ e.action, wide, withMethod]
      ++ (if e.pathFields.isEmpty then []
          else [withMethod ++ "By" ++ String.join (e.pathFields.map pascal)]) := by
  have h2 := isTitled_prefix_action e 2
  have h3 := h2.append (pascal (Text.lower e.method))
  have h4 := (h3.append "By").append (String.join (e.pathFields.map pascal))
  simp only [nameCandidates, (isTitled_prefix_action e 1).safeName_eq, h2.safeName_eq,
    h3.safeName_eq, h4.safeName_eq]

/-- What holds of a scope with an action, and stays true behind which words are put, holds of all
candidates. -/
theorem forall_mem_nameCandidates {P : String → Prop} {e : Endpoint}
    (h : ∀ count, P (scopePrefix e.scope count ++ e.action))
    (happend : ∀ s t, P s → P (s ++ pascal t)) (hby : ∀ s, P s → P (s ++ "By")) :
    ∀ s ∈ e.nameCandidates, P s := by
  have hjoin : ∀ (fields : List String) (s : String), P s →
      P (s ++ String.join (fields.map pascal)) := by
    intro fields
    induction fields with
    | nil => simp
    | cons f fields ih =>
      intro s hs
      rw [List.map_cons, String.join_cons, ← String.append_assoc]
      exact ih _ (happend s f hs)
  intro s hs
  rw [nameCandidates_eq] at hs
  simp only [List.mem_append, List.mem_cons, List.not_mem_nil, or_false] at hs
  rcases hs with (rfl | rfl | rfl) | hs
  · exact h 1
  · exact h 2
  · exact happend _ _ (h 2)
  · split at hs
    · cases hs
    · rw [List.mem_singleton.1 hs]
      exact hjoin _ _ (hby _ (happend _ _ (h 2)))

theorem isTitled_of_mem_nameCandidates {e : Endpoint} {s : String} (hs : s ∈ e.nameCandidates) :
    IsTitled s :=
  forall_mem_nameCandidates (isTitled_prefix_action e) (fun _ _ h => h.append _)
    (fun _ h => h.append _) s hs

theorem IsTitled.firstSerial {base : String} (h : IsTitled base) (used : List String)
    (index : Nat) : IsTitled (firstSerial used base used.length index) := by
  obtain ⟨k, hk, -⟩ := exists_firstSerial used base index
  rw [hk]
  exact (h.append "_").append _

/-- The export name of an endpoint is a title. -/
theorem isTitled_chosen (e : Endpoint) (used : List String) :
    IsTitled (chooseName used e.nameCandidates) :=
  chooseName_of_forall (by simp [nameCandidates]) (fun _ => isTitled_of_mem_nameCandidates)
    (fun _ h => h.firstSerial) used

end Endpoint
end ApiScribe
