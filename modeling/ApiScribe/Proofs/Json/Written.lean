import ApiScribe.Proofs.Json.Number
import ApiScribe.Proofs.Json.Quoted

/-! Written values are read back. A format that spells numbers so that they are read as themselves
loses nothing of a value made of scalars, lists and records, whether it indents or not, and whatever
stands behind the value. -/
namespace ApiScribe
namespace Json

/-- Values of at most so many levels of which a format loses nothing: every integer is one that has a
text, every other number has a text that is read as the number, and no record has a field twice. -/
inductive Format.Keeps (f : Format) : Nat → Value → Prop
  | null (levels : Nat) : f.Keeps levels .null
  | bool (levels : Nat) (b : Bool) : f.Keeps levels (.bool b)
  | str (levels : Nat) (s : String) : f.Keeps levels (.str s)
  | int (levels : Nat) {n : Int} (h : isWritable n = true) : f.Keeps levels (.int n)
  | float (levels : Nat) {x : Float} (h : read (f.floatText x) = .ok (.float x)) :
    f.Keeps levels (.float x)
  | list {levels : Nat} {xs : List Value} (h : ∀ x ∈ xs, f.Keeps levels x) :
    f.Keeps (levels + 1) (.list xs)
  | record {levels : Nat} {fields : List (String × Value)} (hkeys : (fields.map Prod.fst).Nodup)
      (h : ∀ p ∈ fields, f.Keeps levels p.2) : f.Keeps (levels + 1) (.record fields)

variable {f : Format}

theorem keeps_ofString? (levels : Nat) (s : Option String) : f.Keeps levels (.ofString? s) := by
  cases s with
  | none => exact .null levels
  | some s => exact .str levels s

theorem skipGaps_append {gap : List Char} (h : ∀ c ∈ gap, isGap c = true) (cs : List Char) :
    skipGaps (gap ++ cs) = skipGaps cs := List.dropWhile_append_of_pos h

theorem skipGaps_cons {c : Char} (h : isGap c = false) (cs : List Char) :
    skipGaps (c :: cs) = c :: cs := List.dropWhile_cons_of_neg (by simp [h])

theorem isGap_lineBreak (f : Format) (level : Nat) : ∀ c ∈ f.lineBreak level, isGap c = true := by
  unfold Format.lineBreak
  split
  · exact List.forall_mem_cons.2 ⟨rfl, fun c hc => (List.eq_of_mem_replicate hc) ▸ rfl⟩
  · simp

/-- The gap behind the comma of a separator. -/
def Format.gap (f : Format) (level : Nat) : List Char :=
  if f.indented then f.lineBreak level else [' ']

theorem comma_eq (f : Format) (level : Nat) : f.comma level = ',' :: f.gap level := by
  unfold Format.comma Format.gap
  split <;> rfl

theorem isGap_gap (f : Format) (level : Nat) : ∀ c ∈ f.gap level, isGap c = true := by
  unfold Format.gap
  split
  · exact isGap_lineBreak f level
  · exact List.all_eq_true.1 (by decide)

theorem endsNumber_lineBreak (level : Nat) {rest : List Char} (h : EndsNumber rest) :
    EndsNumber (f.lineBreak level ++ rest) := by
  unfold Format.lineBreak
  split
  · exact endsNumber_cons (by decide) (by decide) (by decide) (by decide) _
  · exact h

/-- The characters that values start with. -/
def startsValue (c : Char) : Bool := isAtomChar c || ['"', '[', '{'].contains c

theorem isGap_of_startsValue {c : Char} (h : startsValue c = true) : isGap c = false := by
  simp only [startsValue, Bool.or_eq_true] at h
  rcases h with h | h
  · exact isGap_of_isAtomChar h
  · simp at h
    rcases h with rfl | rfl | rfl <;> rfl

/-- What is written of a scalar other than a string is an atom. -/
theorem atom_scalar {levels : Nat} {a : Scalar} (h : f.Keeps levels (.scalar a))
    (hstr : ∀ s, a ≠ .str s) :
    atom (f.scalar a) = .ok (.scalar a, []) ∧ ∀ c ∈ f.scalar a, isAtomChar c = true := by
  cases h with
  | null => exact ⟨rfl, @List.all_eq_true _ isAtomChar "null".toList |>.1 (by decide)⟩
  | bool _ b =>
    cases b with
    | false => exact ⟨rfl, @List.all_eq_true _ isAtomChar "false".toList |>.1 (by decide)⟩
    | true => exact ⟨rfl, @List.all_eq_true _ isAtomChar "true".toList |>.1 (by decide)⟩
  | str _ s => exact absurd rfl (hstr s)
  | int _ h => exact ⟨atom_intText h, isAtomChar_intText _⟩
  | float _ h =>
    exact ⟨atom_of_read (isAtomChar_floatText f _) h, isAtomChar_floatText f _⟩

theorem exists_startsValue {levels : Nat} {v : Value} (h : f.Keeps levels v) (level : Nat) :
    ∃ c more, f.chars level v = c :: more ∧ startsValue c = true := by
  have hatom : ∀ a, f.Keeps levels (.scalar a) → (∀ s, a ≠ .str s) →
      ∃ c more, f.chars level (.scalar a) = c :: more ∧ startsValue c = true := by
    intro a ha hstr
    obtain ⟨hatom, hchars⟩ := atom_scalar ha hstr
    rw [Format.chars]
    cases hcs : f.scalar a with
    | nil => rw [hcs] at hatom; cases hatom
    | cons c more => exact ⟨c, more, rfl, by simp [startsValue, hchars c (by simp [hcs])]⟩
  cases h with
  | null => exact hatom _ (.null _) (by simp)
  | bool _ b => exact hatom _ (.bool _ b) (by simp)
  | str _ s => exact ⟨'"', _, rfl, rfl⟩
  | int _ h => exact hatom _ (.int _ h) (by simp)
  | float _ h => exact hatom _ (.float _ h) (by simp)
  | @list _ xs _ => cases xs <;> exact ⟨'[', _, rfl, rfl⟩
  | @record _ fields _ _ => cases fields <;> exact ⟨'\x7b', _, rfl, rfl⟩

theorem skipGaps_chars {levels : Nat} {v : Value} (h : f.Keeps levels v) (level : Nat)
    (rest : List Char) : skipGaps (f.chars level v ++ rest) = f.chars level v ++ rest := by
  obtain ⟨c, more, hchars, hc⟩ := exists_startsValue h level
  rw [hchars, List.cons_append, skipGaps_cons (isGap_of_startsValue hc)]

theorem value_str {fuel levels : Nat} {s rest : List Char} {cs : List Char}
    (h : stringChars ('"' :: cs) cs = .ok (s, rest)) :
    value (fuel + 1) levels ('"' :: cs) = .ok (.str (String.ofList s), rest) := by
  rw [value, h]
  rfl

theorem value_list {fuel levels : Nat} {cs inside rest : List Char} {xs : List Value}
    (hgap : skipGaps cs = inside) (hinside : ']' ∉ inside.head?)
    (hitems : items fuel levels inside = .ok (xs, rest)) :
    value (fuel + 1) (levels + 1) ('[' :: cs) = .ok (.list xs, rest) := by
  rw [value, hgap]
  split
  · simp at hinside
  · rw [hitems]
    rfl

theorem value_map {fuel levels : Nat} {cs inside rest : List Char} {m : List (Scalar × Value)}
    (hgap : skipGaps cs = inside) (hinside : '\x7d' ∉ inside.head?)
    (hmembers : members fuel levels [] inside = .ok (m, rest)) :
    value (fuel + 1) (levels + 1) ('\x7b' :: cs) = .ok (.map m, rest) := by
  rw [value, hgap]
  split
  · simp at hinside
  · rw [hmembers]
    rfl

/-- The last item of a list stands in front of its closing bracket. -/
theorem items_last {fuel levels : Nat} {cs rest rest' : List Char} {v : Value}
    (hvalue : value fuel levels cs = .ok (v, rest)) (hclose : skipGaps rest = ']' :: rest') :
    items (fuel + 1) levels cs = .ok ([v], rest') := by
  rw [items, hvalue]
  dsimp only [bind, Except.bind]
  rw [hclose]
  rfl

/-- Any other item stands in front of a comma and the items after it. -/
theorem items_next {fuel levels : Nat} {cs rest rest' rest'' : List Char} {v : Value}
    {vs : List Value} (hvalue : value fuel levels cs = .ok (v, rest))
    (hcomma : skipGaps rest = ',' :: rest')
    (hitems : items fuel levels (skipGaps rest') = .ok (vs, rest'')) :
    items (fuel + 1) levels cs = .ok (v :: vs, rest'') := by
  rw [items, hvalue]
  dsimp only [bind, Except.bind]
  rw [hcomma]
  show (items fuel levels (skipGaps rest') >>= fun r => Except.ok (v :: r.1, r.2)) = _
  rw [hitems]
  rfl

/-- The last entry of a record stands in front of its closing brace. -/
theorem members_last {fuel levels : Nat} {m : List (Scalar × Value)}
    {cs rest gap rest' rest'' name : List Char} {v : Value} (hname : stringChars ('"' :: cs) cs = .ok (name, rest))
    (hcolon : skipGaps rest = ':' :: gap)
    (hvalue : value fuel levels (skipGaps gap) = .ok (v, rest'))
    (hclose : skipGaps rest' = '\x7d' :: rest'') :
    members (fuel + 1) levels m ('"' :: cs) =
      .ok (Entries.put (.str (String.ofList name)) v m, rest'') := by
  rw [members, hname]
  simp only [bind, Except.bind, hcolon, hvalue, hclose]
  rfl

/-- Any other entry stands in front of a comma and the entries after it. -/
theorem members_next {fuel levels : Nat} {m : List (Scalar × Value)}
    {cs rest gap rest' rest'' : List Char} {name : List Char} {v : Value}
    (hname : stringChars ('"' :: cs) cs = .ok (name, rest)) (hcolon : skipGaps rest = ':' :: gap)
    (hvalue : value fuel levels (skipGaps gap) = .ok (v, rest'))
    (hcomma : skipGaps rest' = ',' :: rest'') :
    members (fuel + 1) levels m ('"' :: cs) =
      members fuel levels (Entries.put (.str (String.ofList name)) v m) (skipGaps rest'') := by
  rw [members, hname]
  simp only [bind, Except.bind, hcolon, hvalue, hcomma]

/-- What is written of a value at any level is read in front of what ends a number. -/
def Format.IsRead (f : Format) (levels : Nat) (v : Value) : Prop :=
  ∀ level fuel rest, EndsNumber rest → 2 * (f.chars level v).length ≤ fuel →
    value fuel levels (f.chars level v ++ rest) = .ok (v, rest)

theorem moreItems_append (f : Format) (level : Nat) (x : Value) (xs : List Value)
    (tail : List Char) : f.moreItems level (x :: xs) ++ tail =
      ',' :: (f.gap level ++ (f.chars level x ++ (f.moreItems level xs ++ tail))) := by
  rw [Format.moreItems, comma_eq]
  simp only [List.cons_append, List.append_assoc]

theorem length_moreItems (f : Format) (level : Nat) (x : Value) (xs : List Value) :
    (f.chars level x).length + (f.moreItems level xs).length <
      (f.moreItems level (x :: xs)).length := by
  rw [← List.append_nil (f.moreItems level (x :: xs)), moreItems_append]
  simp only [List.length_append, List.length_cons, List.length_nil]
  omega

/-- The items of a list are read up to its closing bracket. The induction is on the items after the
first. -/
theorem items_chars {levels level : Nat} (outer : Nat) {x : Value} {xs : List Value}
    (hkeeps : ∀ y ∈ x :: xs, f.Keeps levels y) (hread : ∀ y ∈ x :: xs, f.IsRead levels y)
    (rest : List Char) {fuel : Nat}
    (hfuel : 2 * (f.chars level x ++ f.moreItems level xs).length + 1 ≤ fuel) :
    items fuel levels (f.chars level x ++ (f.moreItems level xs ++
      (f.lineBreak outer ++ ']' :: rest))) = .ok (x :: xs, rest) := by
  obtain ⟨fuel, rfl⟩ : ∃ n, fuel = n + 1 := ⟨fuel - 1, by omega⟩
  rw [List.length_append] at hfuel
  have hfirst := hread x List.mem_cons_self level fuel
  induction xs generalizing x fuel with
  | nil =>
    have hclose : EndsNumber (f.lineBreak outer ++ ']' :: rest) :=
      endsNumber_lineBreak outer (endsNumber_cons (by decide) (by decide) (by decide) (by decide) _)
    rw [Format.moreItems, List.nil_append]
    refine items_last (hfirst _ hclose (by omega)) ?_
    rw [skipGaps_append (isGap_lineBreak f outer), skipGaps_cons (by decide)]
  | cons y ys ih =>
    have htail := hkeeps y (List.mem_cons_of_mem x List.mem_cons_self)
    have hlength := length_moreItems f level y ys
    obtain ⟨fuel, rfl⟩ : ∃ n, fuel = n + 1 := ⟨fuel - 1, by omega⟩
    have hnext := ih (x := y) (fun z hz => hkeeps z (List.mem_cons_of_mem x hz))
      (fun z hz => hread z (List.mem_cons_of_mem x hz)) fuel (by omega)
      (hread y (List.mem_cons_of_mem x List.mem_cons_self) level fuel)
    rw [moreItems_append]
    refine items_next (hfirst _ (endsNumber_cons (by decide) (by decide) (by decide) (by decide) _)
      (by omega)) (skipGaps_cons (by decide) _) ?_
    rw [skipGaps_append (isGap_gap f level), skipGaps_chars htail]
    exact hnext

/-- The entries of a record. -/
def entriesOf (fields : List (String × Value)) : List (Scalar × Value) :=
  fields.map fun p => (.str p.1, p.2)

/-- A field that a record does not have is put at its end. -/
theorem put_entriesOf {fields : List (String × Value)} {k : String} (h : k ∉ fields.map Prod.fst)
    (v : Value) : Entries.put (.str k) v (entriesOf fields) = entriesOf (fields ++ [(k, v)]) := by
  induction fields with
  | nil => rfl
  | cons p fields ih =>
    obtain ⟨hk, hrest⟩ := not_or.1 (List.mem_cons.not.1 h)
    have hne : (Scalar.str p.1 == .str k) = false :=
      (beq_eq_false_iff_ne (a := p.1) (b := k)).2 (Ne.symm hk)
    show Entries.put (.str k) v ((.str p.1, p.2) :: entriesOf fields) = _
    rw [Entries.put, hne, if_neg Bool.false_ne_true, ih hrest]
    rfl

theorem moreEntries_append (f : Format) (level : Nat) (k : String) (v : Value)
    (fields : List (String × Value)) (tail : List Char) :
    f.moreEntries level (entriesOf ((k, v) :: fields)) ++ tail =
      ',' :: (f.gap level ++ (f.key (.str k) ++ (':' :: ' ' :: (f.chars level v ++
        (f.moreEntries level (entriesOf fields) ++ tail))))) := by
  show f.moreEntries level ((.str k, v) :: entriesOf fields) ++ tail = _
  rw [Format.moreEntries, comma_eq]
  simp

theorem length_moreEntries (f : Format) (level : Nat) (k : String) (v : Value)
    (fields : List (String × Value)) :
    (f.chars level v).length + (f.moreEntries level (entriesOf fields)).length <
      (f.moreEntries level (entriesOf ((k, v) :: fields))).length := by
  rw [← List.append_nil (f.moreEntries level (entriesOf ((k, v) :: fields))), moreEntries_append]
  simp only [List.length_append, List.length_cons, List.length_nil]
  omega

section
variable {levels level fuel : Nat} {before : List (String × Value)} {k : String} {v : Value}
  {tail rest : List Char}

theorem key_append (f : Format) (k : String) (cs : List Char) : f.key (.str k) ++ cs =
    '"' :: (k.toList.flatMap (quotedChar f.ascii) ++ '"' :: cs) := by
  show '"' :: k.toList.flatMap (quotedChar f.ascii) ++ ['"'] ++ cs = _
  simp

theorem skipGaps_blank_chars (h : f.Keeps levels v) (level : Nat) (cs : List Char) :
    skipGaps (' ' :: (f.chars level v ++ cs)) = f.chars level v ++ cs :=
  (@skipGaps_append [' '] (List.all_eq_true.1 (by decide)) _).trans (skipGaps_chars h level cs)

/-- A new entry is read in front of the closing brace. -/
theorem members_entry_last (hfresh : k ∉ before.map Prod.fst) (hkeeps : f.Keeps levels v)
    (hvalue : value fuel levels (f.chars level v ++ tail) = .ok (v, tail))
    (hclose : skipGaps tail = '\x7d' :: rest) :
    members (fuel + 1) levels (entriesOf before) (f.key (.str k) ++ (':' :: ' ' ::
      (f.chars level v ++ tail))) = .ok (entriesOf (before ++ [(k, v)]), rest) := by
  rw [← put_entriesOf hfresh, key_append]
  have hlast := members_last (m := entriesOf before)
    (stringChars_quoted f.ascii _ k.toList (':' :: ' ' :: (f.chars level v ++ tail)))
    (skipGaps_cons (by decide) _) ((congrArg _ (skipGaps_blank_chars hkeeps level tail)).trans hvalue)
    hclose
  rwa [String.ofList_toList] at hlast

/-- A new entry is read in front of a comma and more entries. -/
theorem members_entry_next (hfresh : k ∉ before.map Prod.fst) (hkeeps : f.Keeps levels v)
    (hvalue : value fuel levels (f.chars level v ++ tail) = .ok (v, tail))
    (hcomma : skipGaps tail = ',' :: rest) :
    members (fuel + 1) levels (entriesOf before) (f.key (.str k) ++ (':' :: ' ' ::
      (f.chars level v ++ tail))) =
      members fuel levels (entriesOf (before ++ [(k, v)])) (skipGaps rest) := by
  rw [← put_entriesOf hfresh, key_append]
  have hnext := members_next (m := entriesOf before)
    (stringChars_quoted f.ascii _ k.toList (':' :: ' ' :: (f.chars level v ++ tail)))
    (skipGaps_cons (by decide) _) ((congrArg _ (skipGaps_blank_chars hkeeps level tail)).trans hvalue)
    hcomma
  rwa [String.ofList_toList] at hnext

end

/-- The entries of a record are read up to its closing brace, behind those read before. The induction
is on the entries after the first. -/
theorem members_chars {levels level : Nat} (outer : Nat) {before fields : List (String × Value)}
    {k : String} {v : Value} (hkeys : ((before ++ (k, v) :: fields).map Prod.fst).Nodup)
    (hkeeps : ∀ p ∈ (k, v) :: fields, f.Keeps levels p.2)
    (hread : ∀ p ∈ (k, v) :: fields, f.IsRead levels p.2) (rest : List Char) {fuel : Nat}
    (hfuel : 2 * (f.chars level v ++ f.moreEntries level (entriesOf fields)).length + 1 ≤ fuel) :
    members fuel levels (entriesOf before) (f.key (.str k) ++ (':' :: ' ' :: (f.chars level v ++
      (f.moreEntries level (entriesOf fields) ++ (f.lineBreak outer ++ '\x7d' :: rest))))) =
      .ok (entriesOf (before ++ (k, v) :: fields), rest) := by
  obtain ⟨fuel, rfl⟩ : ∃ n, fuel = n + 1 := ⟨fuel - 1, by omega⟩
  rw [List.length_append] at hfuel
  have hfirst : f.IsRead levels v := hread (k, v) List.mem_cons_self
  have hkeep : f.Keeps levels v := hkeeps (k, v) List.mem_cons_self
  have hfresh : k ∉ before.map Prod.fst := by
    rw [List.map_append, List.nodup_append] at hkeys
    exact fun hmem => hkeys.2.2 k hmem k List.mem_cons_self rfl
  induction fields generalizing before k v fuel with
  | nil =>
    have hclose : EndsNumber (f.lineBreak outer ++ '\x7d' :: rest) :=
      endsNumber_lineBreak outer (endsNumber_cons (by decide) (by decide) (by decide) (by decide) _)
    show members _ _ _ (_ ++ (':' :: ' ' :: (f.chars level v ++ ([] ++ _)))) = _
    rw [List.nil_append]
    refine members_entry_last hfresh hkeep (hfirst level fuel _ hclose (by omega)) ?_
    rw [skipGaps_append (isGap_lineBreak f outer), skipGaps_cons (by decide)]
  | cons p fields ih =>
    obtain ⟨k', v'⟩ := p
    have hkeys' : (((before ++ [(k, v)]) ++ (k', v') :: fields).map Prod.fst).Nodup := by
      rwa [List.append_assoc]
    have hkeep' : f.Keeps levels v' := hkeeps (k', v') (by simp)
    have hfirst' : f.IsRead levels v' := hread (k', v') (by simp)
    have hfresh' : k' ∉ (before ++ [(k, v)]).map Prod.fst := by
      rw [List.map_append, List.nodup_append] at hkeys'
      exact fun hmem => hkeys'.2.2 k' hmem k' List.mem_cons_self rfl
    have hlength := length_moreEntries f level k' v' fields
    obtain ⟨fuel, rfl⟩ : ∃ n, fuel = n + 1 := ⟨fuel - 1, by omega⟩
    have hnext := ih hkeys' (fun q hq => hkeeps q (List.mem_cons_of_mem _ hq))
      (fun q hq => hread q (List.mem_cons_of_mem _ hq)) fuel (by omega) hfirst' hkeep' hfresh'
    rw [moreEntries_append, members_entry_next hfresh hkeep (hfirst level _ _ (endsNumber_cons
      (by decide) (by decide) (by decide) (by decide) _) (by omega)) (skipGaps_cons (by decide) _),
      skipGaps_append (isGap_gap f level), key_append, skipGaps_cons (by decide), ← key_append, hnext,
      List.append_assoc]
    rfl

theorem length_chars_pos {levels : Nat} {v : Value} (h : f.Keeps levels v) (level : Nat) :
    0 < (f.chars level v).length := by
  obtain ⟨c, more, hchars, -⟩ := exists_startsValue h level
  simp [hchars]

theorem startsValue_of_mem_head? {levels : Nat} {v : Value} (h : f.Keeps levels v) (level : Nat)
    (rest : List Char) : ∀ c ∈ (f.chars level v ++ rest).head?, startsValue c = true := by
  obtain ⟨c, more, hchars, hc⟩ := exists_startsValue h level
  simp [hchars, hc]

theorem isRead_scalar {levels : Nat} {a : Scalar} (h : f.Keeps levels (.scalar a))
    (hstr : ∀ s, a ≠ .str s) : f.IsRead levels (.scalar a) := by
  intro level fuel rest hrest hfuel
  have hpos := length_chars_pos h level
  obtain ⟨fuel, rfl⟩ : ∃ n, fuel = n + 1 := ⟨fuel - 1, by omega⟩
  obtain ⟨hatom, hchars⟩ := atom_scalar h hstr
  have hhead : ∀ c ∈ (f.scalar a ++ rest).head?, isAtomChar c = true := by
    intro c hc
    have hne : f.scalar a ≠ [] := List.length_pos_iff.1 hpos
    rw [List.head?_append_of_ne_nil _ hne] at hc
    exact hchars c (List.mem_of_mem_head? hc)
  rw [Format.chars, value_of_startsAtom hhead, atom_append hatom hrest]

theorem isRead_str (levels : Nat) (s : String) : f.IsRead levels (.str s) := by
  intro level fuel rest _ hfuel
  have hpos := length_chars_pos (.str levels s : f.Keeps levels (.str s)) level
  obtain ⟨fuel, rfl⟩ : ∃ n, fuel = n + 1 := ⟨fuel - 1, by omega⟩
  have hvalue := @value_str fuel levels _ _ _ (stringChars_quoted f.ascii _ s.toList rest)
  rw [String.ofList_toList, ← key_append] at hvalue
  exact hvalue

/-- A list is read if its items are. -/
theorem isRead_list {levels : Nat} {xs : List Value} (hkeeps : ∀ x ∈ xs, f.Keeps levels x)
    (hread : ∀ x ∈ xs, f.IsRead levels x) : f.IsRead (levels + 1) (.list xs) := by
  intro level fuel rest _ hfuel
  cases xs with
  | nil =>
    obtain ⟨fuel, rfl⟩ : ∃ n, fuel = n + 1 := ⟨fuel - 1, by simp [Format.chars] at hfuel; omega⟩
    rfl
  | cons x xs =>
    have hchars : f.chars level (.list (x :: xs)) ++ rest = '[' :: (f.lineBreak (level + 1) ++
        (f.chars (level + 1) x ++ (f.moreItems (level + 1) xs ++
          (f.lineBreak level ++ ']' :: rest)))) := by
      simp [Format.chars]
    have hlength : (f.chars (level + 1) x ++ f.moreItems (level + 1) xs).length + 2 ≤
        (f.chars level (.list (x :: xs))).length := by
      simp [Format.chars]
      omega
    obtain ⟨fuel, rfl⟩ : ∃ n, fuel = n + 1 := ⟨fuel - 1, by omega⟩
    have hx := hkeeps x List.mem_cons_self
    rw [hchars]
    exact value_list
      ((skipGaps_append (isGap_lineBreak f (level + 1)) _).trans (skipGaps_chars hx (level + 1) _))
      (fun hmem => absurd (startsValue_of_mem_head? hx _ _ _ hmem) (by decide))
      (items_chars level hkeeps hread rest (by omega))

/-- A record is read if its fields are. -/
theorem isRead_record {levels : Nat} {fields : List (String × Value)}
    (hkeys : (fields.map Prod.fst).Nodup) (hkeeps : ∀ p ∈ fields, f.Keeps levels p.2)
    (hread : ∀ p ∈ fields, f.IsRead levels p.2) : f.IsRead (levels + 1) (.record fields) := by
  intro level fuel rest _ hfuel
  cases fields with
  | nil =>
    obtain ⟨fuel, rfl⟩ : ∃ n, fuel = n + 1 :=
      ⟨fuel - 1, by simp [Value.record, Format.chars] at hfuel; omega⟩
    rfl
  | cons p fields =>
    obtain ⟨k, v⟩ := p
    have hchars : f.chars level (.record ((k, v) :: fields)) ++ rest =
        '\x7b' :: (f.lineBreak (level + 1) ++ (f.key (.str k) ++ (':' :: ' ' ::
          (f.chars (level + 1) v ++ (f.moreEntries (level + 1) (entriesOf fields) ++
            (f.lineBreak level ++ '\x7d' :: rest)))))) := by
      simp [Value.record, Format.chars, entriesOf]
    have hlength : (f.chars (level + 1) v ++ f.moreEntries (level + 1) (entriesOf fields)).length + 2
        ≤ (f.chars level (.record ((k, v) :: fields))).length := by
      simp [Value.record, Format.chars, entriesOf]
      omega
    obtain ⟨fuel, rfl⟩ : ∃ n, fuel = n + 1 := ⟨fuel - 1, by omega⟩
    have hmembers := @members_chars f levels (level + 1) level [] fields k v hkeys hkeeps hread rest
      fuel (by omega)
    have hgap := skipGaps_append (isGap_lineBreak f (level + 1)) (f.key (.str k) ++ (':' :: ' ' ::
      (f.chars (level + 1) v ++ (f.moreEntries (level + 1) (entriesOf fields) ++
        (f.lineBreak level ++ '\x7d' :: rest)))))
    rw [hchars]
    refine value_map (hgap.trans ?_) ?_ hmembers
    · rw [key_append, skipGaps_cons (by decide)]
    · rw [key_append]
      simp

/-- What a format keeps is read where it is written. The induction is on the value. -/
theorem Format.Keeps.isRead {levels : Nat} {v : Value} (h : f.Keeps levels v) :
    f.IsRead levels v := by
  induction h with
  | null levels => exact isRead_scalar (.null levels) (by simp)
  | bool levels b => exact isRead_scalar (.bool levels b) (by simp)
  | str levels s => exact isRead_str levels s
  | int levels hn => exact isRead_scalar (.int levels hn) (by simp)
  | float levels hx => exact isRead_scalar (.float levels hx) (by simp)
  | list hkeeps ih => exact isRead_list hkeeps ih
  | record hkeys hkeeps ih => exact isRead_record hkeys hkeeps ih

/-- What is written of a value with gaps behind it is read as the value. -/
theorem read_written {v : Value} (h : f.Keeps mostLevels v) {after : List Char}
    (hafter : ∀ c ∈ after, isGap c = true) :
    read (f.write v ++ String.ofList after) = .ok v := by
  have htext : (f.write v ++ String.ofList after).toList = f.chars 0 v ++ after := by
    rw [String.toList_append, Format.write, String.toList_ofList, String.toList_ofList]
  have hend : EndsNumber after := by
    cases after with
    | nil => exact endsNumber_nil
    | cons c after =>
      have hc := hafter c List.mem_cons_self
      have hne : ∀ d : Char, isGap d = false → c ≠ d := fun d hd heq => by simp [heq, hd] at hc
      have hdigit : c.isDigit = false := by
        by_contra hdigit
        rw [isGap_of_isAtomChar (isAtomChar_of_isDigit (by simpa using hdigit))] at hc
        cases hc
      exact endsNumber_cons hdigit (hne _ rfl) (hne _ rfl) (hne _ rfl) _
  have hvalue := h.isRead 0 (2 * (f.chars 0 v ++ after).length + 2) after hend
    (by simp only [List.length_append]; omega)
  have hnone : skipGaps after = [] := List.dropWhile_eq_nil_iff.2 hafter
  have hchars : readChars (f.chars 0 v ++ after) = .ok v := by
    unfold readChars
    split
    · rename_i hmark
      exact absurd (startsValue_of_mem_head? h 0 after '\ufeff' (by rw [hmark]; rfl)) (by decide)
    · rw [skipGaps_chars h 0 after, hvalue]
      dsimp only [bind, Except.bind]
      rw [hnone]
      rfl
  unfold read
  rw [htext, hchars]
  rfl

theorem hexDigit_ne_return (n : Nat) : hexDigit n ≠ '\r' := by
  have hall : ∀ m < 16, (Nat.toDigits 16 m).headD '0' ≠ '\r' := by decide
  exact hall _ (Nat.mod_lt n (by decide))

theorem return_not_mem_unitEscape (n : Nat) : '\r' ∉ unitEscape n := by
  simp [unitEscape, Ne.symm (hexDigit_ne_return _)]

/-- A carriage return is never written raw. -/
theorem return_not_mem_quotedChars (ascii : Bool) (cs : List Char) :
    '\r' ∉ quotedChars ascii cs := by
  have hchar : ∀ c, '\r' ∉ quotedChar ascii c := by
    intro c
    unfold quotedChar
    split
    · rename_i e hshort
      unfold shortEscape? at hshort
      split at hshort <;> cases hshort <;> decide
    · rename_i hshort
      split
      · rintro hmem
        obtain rfl := List.mem_singleton.1 hmem
        cases hshort
      · unfold charEscape
        dsimp only
        split
        · exact return_not_mem_unitEscape _
        · simp [return_not_mem_unitEscape]
  simp [quotedChars, hchar]

theorem return_not_mem_lineBreak (f : Format) (level : Nat) : '\r' ∉ f.lineBreak level := by
  unfold Format.lineBreak
  split <;> simp

theorem return_not_mem_comma (f : Format) (level : Nat) : '\r' ∉ f.comma level := by
  unfold Format.comma
  split
  · simp [return_not_mem_lineBreak]
  · decide

theorem return_not_mem_moreItems {level : Nat} {xs : List Value}
    (h : ∀ x ∈ xs, '\r' ∉ f.chars level x) : '\r' ∉ f.moreItems level xs := by
  induction xs with
  | nil => exact List.not_mem_nil
  | cons x xs ih =>
    simp only [Format.moreItems, List.mem_append, not_or]
    exact ⟨⟨return_not_mem_comma f level, h x List.mem_cons_self⟩,
      ih fun y hy => h y (List.mem_cons_of_mem x hy)⟩

theorem return_not_mem_moreEntries {level : Nat} {fields : List (String × Value)}
    (h : ∀ p ∈ fields, '\r' ∉ f.chars level p.2) :
    '\r' ∉ f.moreEntries level (entriesOf fields) := by
  induction fields with
  | nil => exact List.not_mem_nil
  | cons p fields ih =>
    show '\r' ∉ f.moreEntries level ((.str p.1, p.2) :: entriesOf fields)
    simp only [Format.moreEntries, List.mem_append, not_or]
    exact ⟨⟨⟨⟨return_not_mem_comma f level, return_not_mem_quotedChars _ _⟩, by decide⟩,
      h p List.mem_cons_self⟩, ih fun q hq => h q (List.mem_cons_of_mem p hq)⟩

theorem return_not_mem_scalar {levels : Nat} {a : Scalar} (h : f.Keeps levels (.scalar a))
    (hstr : ∀ s, a ≠ .str s) (level : Nat) : '\r' ∉ f.chars level (.scalar a) := by
  intro hmem
  exact absurd ((atom_scalar h hstr).2 '\r' hmem) (by decide)

/-- Line ends in the text of a value are line feeds. -/
theorem return_not_mem_chars {levels : Nat} {v : Value} (h : f.Keeps levels v) (level : Nat) :
    '\r' ∉ f.chars level v := by
  induction h generalizing level with
  | null levels => exact return_not_mem_scalar (.null levels) (by simp) level
  | bool levels b => exact return_not_mem_scalar (.bool levels b) (by simp) level
  | str levels s => exact return_not_mem_quotedChars _ _
  | int levels hn => exact return_not_mem_scalar (.int levels hn) (by simp) level
  | float levels hx => exact return_not_mem_scalar (.float levels hx) (by simp) level
  | @list levels xs hkeeps ih =>
    cases xs with
    | nil => exact (by decide : '\r' ∉ ['[', ']'])
    | cons x xs =>
      have hmore := return_not_mem_moreItems (fun y hy => ih y (List.mem_cons_of_mem x hy) (level + 1))
      simp [Format.chars, return_not_mem_lineBreak, ih x List.mem_cons_self, hmore]
  | @record levels fields hkeys hkeeps ih =>
    cases fields with
    | nil => exact (by decide : '\r' ∉ ['\x7b', '\x7d'])
    | cons p fields =>
      have hkey : '\r' ∉ f.key (.str p.1) := return_not_mem_quotedChars _ _
      have hmore := return_not_mem_moreEntries
        (fun q hq => ih q (List.mem_cons_of_mem p hq) (level + 1))
      show '\r' ∉ f.chars level (.map ((.str p.1, p.2) :: entriesOf fields))
      simp [Format.chars, return_not_mem_lineBreak, ih p List.mem_cons_self, hkey, hmore]

end Json
end ApiScribe
