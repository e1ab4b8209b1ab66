import Mathlib.Data.List.Find
import ApiScribe.Endpoint.Extract
import ApiScribe.Proofs.Naming.Words
import ApiScribe.Proofs.Reference
import ApiScribe.Proofs.Schema.Alike

/-! Status codes as texts. Some formats read the keys of responses as numbers; with those keys spelled
as texts a value reads the same under every key that is no number, and whatever a reference reaches
is still reached. -/
namespace ApiScribe
namespace Value

/-- Entries in which a number that is a key is spelled as a text, unless that text is a key
already. -/
def textKeys (m : List (Scalar × Value)) : List (Scalar × Value) :=
  m.map fun p => (match p.1 with
    | .int n => if hasField m (toString n) then .int n else .str (toString n)
    | key => key, p.2)

/-- A map with texts for keys; other values stay as they are. -/
def withTextKeys : Value → Value
  | .map m => .map (textKeys m)
  | v => v

mutual

/-- A value in which the keys right under `responses` are texts. What is under `tags` is shown as it
is written, so it stays as it is. -/
def withTextStatuses : Value → Value
  | .list xs => .list (textStatusItems xs)
  | .map m => .map (textStatusEntries m)
  | v => v

/-- Item by item. -/
def textStatusItems : List Value → List Value
  | [] => []
  | x :: xs => withTextStatuses x :: textStatusItems xs

/-- Entry by entry. -/
def textStatusEntries : List (Scalar × Value) → List (Scalar × Value)
  | [] => []
  | (key, v) :: m =>
    (key, if key.str? = some "tags" then v
      else if key.str? = some "responses" then (withTextStatuses v).withTextKeys
      else withTextStatuses v) :: textStatusEntries m

end

/-- What becomes of a value under a key. -/
def underTextStatuses (key : Scalar) (v : Value) : Value :=
  if key.str? = some "tags" then v
  else if key.str? = some "responses" then v.withTextStatuses.withTextKeys
  else v.withTextStatuses

theorem textStatusItems_eq (xs : List Value) : textStatusItems xs = xs.map withTextStatuses := by
  induction xs with
  | nil => rfl
  | cons x xs ih => rw [textStatusItems, ih, List.map_cons]

theorem textStatusEntries_eq (m : List (Scalar × Value)) :
    textStatusEntries m = m.map fun p => (p.1, underTextStatuses p.1 p.2) := by
  induction m with
  | nil => rfl
  | cons p m ih => rw [textStatusEntries, ih, List.map_cons, underTextStatuses]

/-- Values of which the second is the first with texts for status codes, in it or for its own keys
as well; both may also be the same. -/
inductive Respelled : Value → Value → Prop
  | same (v : Value) : Respelled v v
  | inside (v : Value) : Respelled v v.withTextStatuses
  | whole (v : Value) : Respelled v v.withTextStatuses.withTextKeys

theorem respelled_underTextStatuses (key : Scalar) (v : Value) :
    Respelled v (underTextStatuses key v) := by
  unfold underTextStatuses
  split
  · exact .same v
  · split
    · exact .whole v
    · exact .inside v

/-- Entries keep their keys. -/
theorem textStatusEntries_alike (m : List (Scalar × Value)) :
    Schema.EntriesAlike Respelled m (textStatusEntries m) := by
  rw [textStatusEntries_eq]
  exact List.forall₂_map_right_iff.2 <| List.forall₂_same.2 fun p _ =>
    ⟨rfl, respelled_underTextStatuses p.1 p.2⟩

theorem scalar_beq_str {k : Scalar} {key : String} : (k == .str key) = true ↔ k = .str key := by
  constructor
  · intro h
    have hstr := Scalar.str?_eq_of_same h
    exact Scalar.str?_eq_some.1 hstr
  · rintro rfl
    exact beq_self_eq_true key

theorem get?_textStatusEntries (m : List (Scalar × Value)) (key : String) :
    Entries.get? (textStatusEntries m) (.str key) =
      (Entries.get? m (.str key)).map (underTextStatuses (.str key)) := by
  rw [textStatusEntries_eq, Entries.get?, Entries.get?, List.find?_map, Option.map_map,
    Option.map_map]
  cases hfind : m.find? (·.1 == .str key) with
  | none => exact congrArg _ hfind
  | some p =>
    have hbeq : (p.1 == .str key) = true := by simpa using List.find?_some hfind
    have hp : p.1 = .str key := scalar_beq_str.1 hbeq
    refine (congrArg _ hfind).trans ?_
    exact congrArg (fun k => some (underTextStatuses k p.2)) hp

theorem mem_textStatusEntries {m : List (Scalar × Value)} {k : Scalar} :
    (∃ v, (k, v) ∈ textStatusEntries m) ↔ ∃ v, (k, v) ∈ m := by
  rw [textStatusEntries_eq]
  constructor
  · rintro ⟨v, hv⟩
    obtain ⟨p, hp, heq⟩ := List.mem_map.1 hv
    cases heq
    exact ⟨p.2, hp⟩
  · rintro ⟨v, hv⟩
    exact ⟨_, List.mem_map.2 ⟨(k, v), hv, rfl⟩⟩

/-- A key is found as before unless a number is now spelled like it. -/
theorem get?_textKeys {m : List (Scalar × Value)} {key : String}
    (h : ∀ n : Int, toString n = key → (∃ v, (.int n, v) ∈ m) → hasField m key = true) :
    Entries.get? (textKeys m) (.str key) = Entries.get? m (.str key) := by
  have hkey : ∀ p ∈ m, ((match p.1 with
      | .int n => if hasField m (toString n) then .int n else .str (toString n)
      | key => key : Scalar) == .str key) = (p.1 == .str key) := by
    rintro ⟨k, v⟩ hp
    cases k with
    | int n =>
      dsimp only
      split
      · rfl
      · next hno =>
        rw [Bool.eq_iff_iff, scalar_beq_str, scalar_beq_str]
        simp only [Scalar.str.injEq, reduceCtorEq, iff_false]
        intro hn
        exact hno (hn ▸ h n hn ⟨v, hp⟩)
    | _ => rfl
  rw [Entries.get?, textKeys, List.find?_map, Entries.get?, Option.map_map]
  congr 1
  exact List.find?_congr hkey

theorem isAlpha_eq_false_of_isDigit {c : Char} (h : c.isDigit = true) : c.isAlpha = false := by
  have hdigit := (Naming.isDigit_iff c).1 h
  refine Bool.eq_false_iff.2 fun (halpha : (c.isUpper || c.isLower) = true) => ?_
  rcases Bool.or_eq_true_iff.1 halpha with hupper | hlower
  · have := (Naming.isUpper_iff c).1 hupper
    omega
  · have := (Naming.isLower_iff c).1 hlower
    omega

/-- A number in digits has no letters. -/
theorem toString_ne_of_isAlpha {key : String} (h : key.toList.any Char.isAlpha = true) (n : Int) :
    toString n ≠ key := by
  rintro rfl
  have hdigits : ∀ m : Nat, ∀ c ∈ (toString m).toList, c.isAlpha = false := by
    intro m c hc
    rw [Nat.toString_eq_repr, Nat.toList_repr] at hc
    exact isAlpha_eq_false_of_isDigit (Nat.isDigit_of_mem_toDigits (by decide) (by decide) hc)
  obtain ⟨c, hc, halpha⟩ := List.any_eq_true.1 h
  cases n with
  | ofNat m =>
    rw [hdigits m c hc] at halpha
    cases halpha
  | negSucc m =>
    rw [show toString (Int.negSucc m) = "-" ++ toString (m + 1) from rfl,
      String.toList_append] at hc
    rcases List.mem_append.1 hc with hc | hc
    · rw [List.mem_singleton.1 hc] at halpha
      exact absurd halpha (by decide)
    · rw [hdigits _ c hc] at halpha
      cases halpha

/-- Under a key that no number is spelled like, related maps hold the same value, or what becomes of
it under that key. -/
theorem Respelled.get?_eq {m n : List (Scalar × Value)} (h : Respelled (.map m) (.map n))
    (key : String)
    (hkey : ∀ i : Int, toString i = key → (∃ v, (.int i, v) ∈ m) → hasField m key = true) :
    Entries.get? n (.str key) = Entries.get? m (.str key) ∨
      Entries.get? n (.str key) = (Entries.get? m (.str key)).map (underTextStatuses (.str key)) := by
  generalize hv : Value.map m = v, hw : Value.map n = w at h
  cases h with
  | same =>
    cases hv
    cases hw
    exact .inl rfl
  | inside =>
    subst hv
    cases hw
    exact .inr (get?_textStatusEntries m key)
  | whole =>
    subst hv
    cases hw
    refine .inr ?_
    rw [get?_textKeys, get?_textStatusEntries]
    intro i hi hmem
    rw [Value.hasField_eq, get?_textStatusEntries, Option.isSome_map, ← Value.hasField_eq]
    exact hkey i hi (mem_textStatusEntries.1 hmem)

theorem Respelled.get? {m n : List (Scalar × Value)} (h : Respelled (.map m) (.map n))
    (key : String)
    (hkey : ∀ i : Int, toString i = key → (∃ v, (.int i, v) ∈ m) → hasField m key = true) :
    Option.Rel Respelled (Entries.get? m (.str key)) (Entries.get? n (.str key)) := by
  rcases h.get?_eq key hkey with heq | heq
  · rw [heq]
    exact Outcome.rel_refl .same _
  · rw [heq]
    cases Entries.get? m (.str key) with
    | none => exact .none
    | some v => exact .some (respelled_underTextStatuses (.str key) v)

theorem not_spelled {m : List (Scalar × Value)} {key : String}
    (h : key.toList.any Char.isAlpha = true) (i : Int) (hi : toString i = key)
    (_ : ∃ v, (.int i, v) ∈ m) : hasField m key = true :=
  absurd hi (toString_ne_of_isAlpha h i)

/-- Related values look alike. -/
theorem Respelled.alike {v w : Value} (h : Respelled v w) : Alike Respelled v w := by
  have hlength : ∀ m : List (Scalar × Value), m.length = (textStatusEntries m).length :=
    fun m => (textStatusEntries_alike m).length_eq
  have hitems : ∀ xs : List Value, List.Forall₂ Respelled xs (textStatusItems xs) := by
    intro xs
    rw [textStatusItems_eq, List.forall₂_map_right_iff, List.forall₂_same]
    exact fun x _ => .inside x
  cases h with
  | same => exact .refl .same v
  | inside =>
    cases v with
    | list xs => exact .list (hitems xs)
    | map m => exact .map (hlength m)
    | _ => exact .refl .same _
  | whole =>
    cases v with
    | list xs => exact .list (hitems xs)
    | map m => exact .map ((hlength m).trans (List.length_map _).symm)
    | _ => exact .refl .same _

theorem isFixed_withTextStatuses (v : Value) : v.withTextStatuses.isFixed = v.isFixed := by
  cases v <;> rfl

theorem scalar?_withTextStatuses (v : Value) : v.withTextStatuses.scalar? = v.scalar? := by
  cases v <;> rfl

/-- A set of names is no place for status codes. -/
theorem nameSet_withTextStatuses (v : Value) :
    Schema.nameSet v.withTextStatuses = Schema.nameSet v := by
  have halike := (Respelled.inside v).alike
  unfold Schema.nameSet
  rw [← halike.isSet_eq]
  split
  · rfl
  cases v with
  | list xs =>
    have hfixed : (xs.map withTextStatuses).all isFixed = xs.all isFixed := by
      rw [List.all_map]
      exact congrArg xs.all (funext isFixed_withTextStatuses)
    have hscalars : (xs.map withTextStatuses).filterMap scalar? = xs.filterMap scalar? := by
      rw [List.filterMap_map]
      exact congrArg (List.filterMap · xs) (funext scalar?_withTextStatuses)
    simp only [withTextStatuses, members?, textStatusItems_eq, Outcome.expect, bind, Except.bind,
      hfixed, hscalars]
  | map m =>
    have hkeys : (textStatusEntries m).map (fun p => Value.scalar p.1) =
        m.map fun p => .scalar p.1 := by
      rw [← List.forall₂_eq_eq_eq, List.forall₂_map_left_iff, List.forall₂_map_right_iff]
      exact (textStatusEntries_alike m).flip.imp fun p q hpq => by rw [hpq.1]
    simp only [withTextStatuses, members?, hkeys]
  | _ => rfl

/-- Under a key that is neither that of responses nor that of tags, related maps hold the same value
but for the status codes inside it. -/
theorem Respelled.get?_inside {m n : List (Scalar × Value)} (h : Respelled (.map m) (.map n))
    (key : String) (hkey : key.toList.any Char.isAlpha = true) (htags : key ≠ "tags")
    (hresponses : key ≠ "responses") :
    Entries.get? n (.str key) = Entries.get? m (.str key) ∨
      Entries.get? n (.str key) = (Entries.get? m (.str key)).map withTextStatuses := by
  refine (h.get?_eq key (not_spelled hkey)).imp_right fun heq => ?_
  rw [heq]
  refine congrArg (Option.map · _) (funext fun v => ?_)
  rw [underTextStatuses, if_neg (by simpa [Scalar.str?] using htags),
    if_neg (by simpa [Scalar.str?] using hresponses)]

theorem Respelled.field_inside {m n : List (Scalar × Value)} (h : Respelled (.map m) (.map n))
    (key : String) (hkey : key.toList.any Char.isAlpha = true) (htags : key ≠ "tags")
    (hresponses : key ≠ "responses") :
    field n key = field m key ∨ field n key = (field m key).withTextStatuses := by
  unfold field
  rcases h.get?_inside key hkey htags hresponses with heq | heq
  · exact .inl (by rw [heq])
  · refine .inr ?_
    rw [heq]
    cases Entries.get? m (.str key) <;> rfl

/-- Related maps match as schemas. -/
theorem Respelled.matches {m n : List (Scalar × Value)} (h : Respelled (.map m) (.map n)) :
    Schema.Matches Respelled m n where
  length := by
    cases h.alike with
    | map hlength => exact hlength
  top key hkey := by
    have hletters : ∀ key ∈ Schema.topKeys, key.toList.any Char.isAlpha = true := by decide
    exact h.get? key (not_spelled (hletters key hkey))
  properties ps qs hps hqs := by
    rcases h.get?_inside "properties" (by decide) (by decide) (by decide) with heq | heq
    · rw [heq, hps] at hqs
      cases hqs
      exact List.forall₂_same.2 fun p _ => ⟨rfl, .same p.2⟩
    · rw [heq, hps] at hqs
      cases hqs
      exact textStatusEntries_alike ps
  required := by
    rcases h.field_inside "required" (by decide) (by decide) (by decide) with heq | heq
    · exact .of_eq (by rw [heq])
    · exact .of_eq (by rw [heq, nameSet_withTextStatuses])

theorem item_refines {R : Value → Value → Prop} {xs ys : List Value} (h : List.Forall₂ R xs ys)
    (ref : String) (segment : List Char) :
    Outcome.Refines R (Reference.item ref xs segment) (Reference.item ref ys segment) := by
  unfold Reference.item
  rw [← h.length_eq]
  split
  · exact .error
  split
  · exact .error
  refine (Outcome.Refines.refl (fun _ => rfl) _).bind ?_
  rintro i _ rfl
  obtain ⟨hlength, hget⟩ := List.forall₂_iff_get.1 h
  by_cases hi : i < xs.length
  · rw [List.getElem?_eq_getElem hi, List.getElem?_eq_getElem (hlength ▸ hi)]
    exact .ok (hget i hi (hlength ▸ hi))
  · rw [List.getElem?_eq_none (Nat.le_of_not_lt hi)]
    exact .error

/-- One step along a reference. A key that is found is found again, spelled or not. -/
theorem Respelled.step {v w : Value} (h : Respelled v w) (ref : String) (segment : List Char) :
    Outcome.Refines Respelled (Reference.step ref v segment) (Reference.step ref w segment) := by
  cases h.alike with
  | @map m n _ =>
    unfold Reference.step
    dsimp only
    cases hget : Entries.get? m (.str (String.ofList segment)) with
    | none => exact .error
    | some x =>
      have hfound : hasField m (String.ofList segment) = true := by
        rw [Value.hasField_eq, hget]
        rfl
      have hrel := h.get? (String.ofList segment) fun _ _ _ => hfound
      rw [hget] at hrel
      revert hrel
      generalize Entries.get? n (.str (String.ofList segment)) = o
      intro hrel
      cases hrel with
      | some hxy => exact .ok hxy
  | list hxs => exact item_refines hxs ref segment
  | _ => exact .error

/-- What a reference reaches, it still reaches. -/
theorem resolve_withTextStatuses (document : Value) (ref : String) :
    Outcome.Refines Respelled (Reference.resolve document ref)
      (Reference.resolve document.withTextStatuses ref) := by
  unfold Reference.resolve
  split
  · exact .error
  · next segments _ =>
    exact .foldlM (List.forall₂_same.2 fun _ _ => rfl)
      (fun v w s t hvw hst => hst ▸ hvw.step ref s) (.inside document)

theorem mediaSchema_refines {v w : Value} (h : Respelled v w) :
    Outcome.Refines Respelled (Schema.mediaSchema v) (Schema.mediaSchema w) := by
  unfold Schema.mediaSchema
  rw [← h.alike.isSet_eq]
  split
  · cases h.alike with
    | map _ =>
      exact .ok (alike_getD (.same .null) (h.get? "schema" (not_spelled (by decide))))
    | _ => exact .error
  · exact .ok (.same .null)

/-- The media types of a content are no status codes, so the same one is preferred. -/
theorem pickMedia_withTextStatuses (v : Value) :
    Outcome.Refines Respelled (Schema.pickMedia v) (Schema.pickMedia v.withTextStatuses) := by
  cases v with
  | map m =>
    cases m with
    | nil => exact .ok (.same .null)
    | cons p m =>
      have hall : Schema.EntriesAlike Respelled (p :: m) (textStatusEntries (p :: m)) :=
        textStatusEntries_alike (p :: m)
      have hfound : Option.Rel Respelled
          (Schema.preferredTypes.findSome? fun t => Entries.get? (p :: m) (.str t))
          (Schema.preferredTypes.findSome? fun t =>
            Entries.get? (textStatusEntries (p :: m)) (.str t)) := by
        induction Schema.preferredTypes with
        | nil => exact .none
        | cons t ts ih =>
          rw [List.findSome?_cons, List.findSome?_cons]
          have hget := hall.get? (.str t)
          revert hget
          generalize Entries.get? (p :: m) (.str t) = a
          generalize Entries.get? (textStatusEntries (p :: m)) (.str t) = b
          rintro (hab | _)
          · exact .some hab
          · exact ih
      obtain ⟨k, x⟩ := p
      rw [withTextStatuses]
      rw [textStatusEntries] at hall hfound ⊢
      unfold Schema.pickMedia
      dsimp only
      revert hfound
      generalize Schema.preferredTypes.findSome? _ = a
      generalize Schema.preferredTypes.findSome? _ = b
      intro hfound
      cases hfound with
      | none => 
        cases hall with
        | cons hx _ => exact mediaSchema_refines hx.2
      | some hab => exact mediaSchema_refines hab
  | _ => exact .ok (.same .null)

end Value
end ApiScribe
