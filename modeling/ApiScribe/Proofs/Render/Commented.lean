import ApiScribe.Model.Text
import ApiScribe.Proofs.Render.ServiceFiles
import ApiScribe.Proofs.Text.Comment
import ApiScribe.Render.Functions

/-! Comments in rendered files. What a document says about an endpoint or a model comes into a file
as comments only, on lines of their own, and none of them ends before the end that belongs to it. -/
namespace ApiScribe
namespace Text

/-- A text is cut at a pattern that does not occur before, not even with its start inside the text
and its end behind it. -/
theorem cut?_append_pattern {pattern as : List Char} (hpattern : pattern ≠ [])
    (h : ¬ pattern <:+: as ++ pattern.dropLast) (bs : List Char) :
    cut? pattern (as ++ pattern ++ bs) = some (as, bs) := by
  induction as with
  | nil =>
    obtain ⟨p, ps, rfl⟩ := List.exists_cons_of_ne_nil hpattern
    rw [List.nil_append, List.cons_append, cut?, ← List.cons_append,
      after?_eq_some_iff.2 rfl]
  | cons a as ih =>
    have hrest : ¬ pattern <:+: as ++ pattern.dropLast := fun hmem =>
      h (hmem.trans (List.suffix_cons a _).isInfix)
    have hstart : after? pattern (a :: (as ++ pattern ++ bs)) = none := by
      refine Option.eq_none_iff_forall_ne_some.2 fun rest hrest => h ?_
      have hprefix : pattern <+: a :: (as ++ pattern ++ bs) :=
        ⟨rest, (after?_eq_some_iff.1 hrest).symm⟩
      have hfront : a :: as ++ pattern.dropLast <+: a :: (as ++ pattern ++ bs) := by
        rw [List.append_assoc, List.cons_append, List.prefix_cons_inj, List.prefix_append_right_inj]
        exact (List.dropLast_prefix pattern).trans (List.prefix_append _ _)
      refine (List.prefix_of_prefix_length_le hprefix hfront ?_).isInfix
      have hlength := List.length_pos_of_ne_nil hpattern
      simp only [List.length_append, List.length_cons, List.length_dropLast]
      omega
    rw [List.cons_append, List.cons_append, cut?, hstart, ih hrest]
    rfl

/-- Two signs in a row that stand in neither of two texts do not stand where the texts meet, if the
first one does not end with the one sign or the second one does not start with the other. -/
theorem not_pair_infix_append {x y : Char} {as bs : List Char} (ha : ¬ [x, y] <:+: as)
    (hb : ¬ [x, y] <:+: bs) (h : as.getLast? ≠ some x ∨ bs.head? ≠ some y) :
    ¬ [x, y] <:+: as ++ bs := by
  intro hmem
  obtain hmem | hmem | ⟨front, rest, hfront, hrest, heq, hsuffix, hprefix⟩ :=
    List.infix_append_iff_ne_nil.1 hmem
  · exact ha hmem
  · exact hb hmem
  · obtain ⟨c, front, rfl⟩ := List.exists_cons_of_ne_nil hfront
    obtain ⟨rfl, htail⟩ := List.cons.inj heq
    obtain ⟨d, rest, rfl⟩ := List.exists_cons_of_ne_nil hrest
    have hnil : front = [] := by
      cases front with
      | nil => rfl
      | cons _ _ => simp at htail
    subst hnil
    obtain ⟨rfl, rfl⟩ := List.cons.inj htail
    obtain ⟨as, rfl⟩ := hsuffix
    obtain ⟨bs, rfl⟩ := hprefix
    exact h.elim (fun h => h (by simp)) fun h => h rfl

end Text

namespace Render

/-- The end of a comment. -/
def commentEnd : List Char := ['*', '/']

/-- Lines that are one comment: blanks, a start, and an end, which is the first one behind the start
whatever comes after it. No character in them breaks a line. -/
structure IsComment (block : List String) : Prop where
  lines : ∀ line ∈ block, ∀ c ∈ line.toList, Text.isLineEnd c = false
  closed : ∃ indent inside : List Char, (∀ c ∈ indent, c = ' ') ∧
    (fileText block).toList = indent ++ ['/', '*'] ++ inside ++ commentEnd ++ ['\n'] ∧
    ∀ rest, Text.cut? commentEnd (inside ++ commentEnd ++ rest) = some (inside, rest)

/-- Lines with comments between them, and the lines without the comments. -/
inductive Commented : List String → List String → Prop
  | nil : Commented [] []
  | line (l : String) {ls bare : List String} (h : Commented ls bare) :
      Commented (l :: ls) (l :: bare)
  | comment {block ls bare : List String} (hblock : IsComment block) (h : Commented ls bare) :
      Commented (block ++ ls) bare

theorem Commented.refl (ls : List String) : Commented ls ls := by
  induction ls with
  | nil => exact .nil
  | cons l ls ih => exact .line l ih

theorem Commented.append {ls ms bare bare' : List String} (h : Commented ls bare)
    (h' : Commented ms bare') : Commented (ls ++ ms) (bare ++ bare') := by
  induction h with
  | nil => exact h'
  | line l _ ih => exact .line l ih
  | comment hblock _ ih =>
    rw [List.append_assoc]
    exact .comment hblock ih

theorem Commented.flatMap {α : Type} {f g : α → List String} {xs : List α}
    (h : ∀ x ∈ xs, Commented (f x) (g x)) : Commented (xs.flatMap f) (xs.flatMap g) := by
  induction xs with
  | nil => exact .nil
  | cons x xs ih =>
    obtain ⟨hx, hxs⟩ := List.forall_mem_cons.1 h
    exact hx.append (ih hxs)

theorem Commented.intercalate {α : Type} {f g : α → List String} {xs : List α}
    (h : ∀ x ∈ xs, Commented (f x) (g x)) (sep : List String) :
    Commented (sep.intercalate (xs.map f)) (sep.intercalate (xs.map g)) := by
  induction xs with
  | nil => exact .nil
  | cons x xs ih =>
    obtain ⟨hx, hxs⟩ := List.forall_mem_cons.1 h
    cases xs with
    | nil => simpa using hx
    | cons y xs =>
      simp only [List.map_cons, List.intercalate_cons_cons] at ih ⊢
      exact (hx.append (.refl sep)).append (ih hxs)

/-- A comment, or nothing. -/
theorem commented_nil {block : List String} (h : block = [] ∨ IsComment block) :
    Commented block [] := by
  rcases h with rfl | h
  · exact .nil
  · simpa using Commented.comment h .nil

/-- Lines around the text of a comment are a comment if no slash stands in what they add, and no star
right before the text. -/
theorem isComment_of {block : List String} (indent front back : List Char) (text : Option String)
    (hlines : ∀ line ∈ block, ∀ c ∈ line.toList, Text.isLineEnd c = false)
    (hindent : ∀ c ∈ indent, c = ' ')
    (hblock : (fileText block).toList =
      indent ++ ['/', '*'] ++ (front ++ (commentText text).toList ++ back) ++ commentEnd ++ ['\n'])
    (hfront : '/' ∉ front) (hlast : front.getLast? ≠ some '*') (hback : '/' ∉ back) :
    IsComment block := by
  have hplain : ∀ {cs : List Char}, '/' ∉ cs → ¬ commentEnd <:+: cs :=
    fun h hmem => h (hmem.subset (by decide))
  have hback : '/' ∉ back ++ ['*'] := by simpa using hback
  refine ⟨hlines, indent, _, hindent, hblock, Text.cut?_append_pattern (by decide) ?_⟩
  rw [List.append_assoc, List.append_assoc]
  refine Text.not_pair_infix_append (hplain hfront) ?_ (.inl hlast)
  refine Text.not_pair_infix_append (not_infix_commentText text) (hplain hback) (.inr ?_)
  exact fun hhead => hback (List.mem_of_mem_head? hhead)

theorem isLineEnd_eq_false_of_any {s : String} (h : s.toList.any Text.isLineEnd = false) :
    ∀ c ∈ s.toList, Text.isLineEnd c = false :=
  fun c hc => Bool.eq_false_iff.2 (List.any_eq_false.1 h c hc)

/-- A text on one line between the marks of a comment is a comment. -/
theorem isComment_line {indent : String} (hindent : ∀ c ∈ indent.toList, c = ' ')
    (text : Option String) : IsComment [indent ++ "/** " ++ commentText text ++ " */"] := by
  refine isComment_of indent.toList ['*', ' '] [' '] text ?_ hindent
    (by simp [toList_fileText, commentEnd]) (by decide) (by decide) (by decide)
  intro line hline c hc
  rw [List.mem_singleton.1 hline] at hc
  simp only [String.toList_append, List.mem_append] at hc
  rcases hc with ((hc | hc) | hc) | hc
  · rw [hindent c hc]
    decide
  · exact isLineEnd_eq_false_of_any (by decide) c hc
  · exact isLineEnd_commentText c hc
  · exact isLineEnd_eq_false_of_any (by decide) c hc

theorem commented_commentLine (indent : String) (hindent : ∀ c ∈ indent.toList, c = ' ')
    (text : Option String) : Commented (Model.commentLine indent text) [] := by
  refine commented_nil ?_
  rw [Model.commentLine]
  split
  · exact .inl rfl
  · exact .inr (isComment_line hindent text)

/-- What stands in front of a function is a comment if there is something to say. -/
theorem isComment_functionComment (e : Endpoint) :
    functionComment e = [] ∨ IsComment (functionComment e) := by
  have hsummary : ∀ c ∈ (" * " ++ commentText e.summary).toList, Text.isLineEnd c = false := by
    intro c hc
    rw [String.toList_append, List.mem_append] at hc
    exact hc.elim (isLineEnd_eq_false_of_any (by decide) c) (isLineEnd_commentText c)
  have hlines : ∀ line ∈ ["/**", " * " ++ commentText e.summary, " * @deprecated", " */"],
      ∀ c ∈ line.toList, Text.isLineEnd c = false :=
    List.forall_mem_cons.2 ⟨isLineEnd_eq_false_of_any (by decide),
      List.forall_mem_cons.2 ⟨hsummary, List.forall_mem_cons.2
        ⟨isLineEnd_eq_false_of_any (by decide),
          List.forall_mem_singleton.2 (isLineEnd_eq_false_of_any (by decide))⟩⟩⟩
  by_cases hempty : commentText e.summary = "" <;> cases hdeprecated : e.deprecated
  · exact .inl (by simp [functionComment, hempty, hdeprecated])
  · have hblock : functionComment e = ["/**", " * @deprecated", " */"] := by
      simp [functionComment, hempty, hdeprecated]
    have hsub : ["/**", " * @deprecated", " */"] ⊆
        ["/**", " * " ++ commentText e.summary, " * @deprecated", " */"] :=
      List.cons_subset_cons _ (List.subset_cons_self _ _)
    rw [hblock]
    exact .inr (isComment_of [] "*\n".toList " * @deprecated\n ".toList e.summary
      (fun line h => hlines line (hsub h))
      (by simp) (by simp [hempty, toList_fileText, commentEnd]) (by decide) (by decide) (by decide))
  · have hblock : functionComment e = ["/**", " * " ++ commentText e.summary, " */"] := by
      simp [functionComment, hempty, hdeprecated]
    have hsub : ["/**", " * " ++ commentText e.summary, " */"] ⊆
        ["/**", " * " ++ commentText e.summary, " * @deprecated", " */"] :=
      List.cons_subset_cons _ (List.cons_subset_cons _ (List.subset_cons_self _ _))
    rw [hblock]
    exact .inr (isComment_of [] "*\n * ".toList "\n ".toList e.summary
      (fun line h => hlines line (hsub h)) (by simp)
      (by simp [toList_fileText, commentEnd]) (by decide) (by decide) (by decide))
  · have hblock : functionComment e =
        ["/**", " * " ++ commentText e.summary, " * @deprecated", " */"] := by
      simp [functionComment, hempty, hdeprecated]
    rw [hblock]
    exact .inr (isComment_of [] "*\n * ".toList "\n * @deprecated\n ".toList e.summary hlines
      (by simp)
      (by simp [toList_fileText, commentEnd]) (by decide) (by decide) (by decide))

end Render

/-- An endpoint without what a document says about it. -/
def Endpoint.withoutComment (e : Endpoint) : Endpoint :=
  { e with summary := none, deprecated := false }

/-- The endpoints of a document without what it says about them. -/
def Api.withoutComments (a : Api) : Api :=
  { a with endpoints := a.endpoints.map Endpoint.withoutComment }

/-- A property without its description. -/
def ModelProperty.withoutComment (p : ModelProperty) : ModelProperty := { p with description := none }

/-- A member without its comment. -/
def EnumMember.withoutComment (e : EnumMember) : EnumMember := { e with comment := none }

/-- What a model is, without what a document says about its parts. -/
def ModelKind.withoutComments : ModelKind → ModelKind
  | .interface ps => .interface (ps.map ModelProperty.withoutComment)
  | .enum es => .enum (es.map EnumMember.withoutComment)
  | .aliased target nullable => .aliased target nullable

/-- A model without what a document says about it and its parts. -/
def Model.withoutComments (m : Model) : Model :=
  { m with description := none, kind := m.kind.withoutComments }

/-- The models of a document without what it says about them. -/
def ModelSet.withoutComments (s : ModelSet) : ModelSet :=
  { s with models := s.models.map Model.withoutComments }

namespace Render

open Endpoint

/-- A file that has comments in it, and the file without them. -/
structure IsCommentedFile (f bare : PlannedFile) : Prop where
  path : f.path = bare.path
  content : ∃ ls ls', f.content = fileText ls ∧ bare.content = fileText ls' ∧ Commented ls ls'

/-- Files that have comments in them, and the files without them. -/
def AreCommented : List PlannedFile → List PlannedFile → Prop := List.Forall₂ IsCommentedFile

theorem isCommentedFile_of_lines {path : String} {ls bare : List String} (h : Commented ls bare) :
    IsCommentedFile ⟨path, fileText ls⟩ ⟨path, fileText bare⟩ :=
  ⟨rfl, ls, bare, rfl, rfl, h⟩

theorem keepsNames_withoutComment : KeepsNames withoutComment :=
  ⟨fun _ => rfl, fun _ => rfl, fun _ => rfl, fun _ => rfl, fun _ => rfl⟩

theorem commentText_none : commentText none = "" := by decide

theorem commented_functionLines (e : Endpoint) (client : Import.Client) (builder base : String)
    (package : Bool) : Commented (functionLines e client builder base package)
      (functionLines e.withoutComment client builder base package) := by
  have hbare : functionComment e.withoutComment = [] := by
    simp [functionComment, withoutComment, commentText_none]
  unfold functionLines
  rw [hbare]
  have hcomment := commented_nil (isComment_functionComment e)
  exact ((((Commented.refl _).append hcomment).append (.refl _)).append (.refl _)).append (.refl _)

theorem commented_methodLines (style : CallStyle) (name : String) (e : Endpoint) :
    Commented (methodLines style name e) (methodLines style name e.withoutComment) := by
  have hcomment : Commented (if commentText e.summary = "" then []
      else ["  /** " ++ commentText e.summary ++ " */"]) [] :=
    commented_commentLine "  " (by simp) e.summary
  exact hcomment.append (.refl _)

theorem commented_scriptFunction (e : Endpoint) :
    Commented (scriptFunction e) (scriptFunction e.withoutComment) := by
  have hcomment : Commented (if commentText e.summary = "" then []
      else ["/** " ++ commentText e.summary ++ " */"]) [] :=
    commented_commentLine "" (by simp) e.summary
  exact ((Commented.refl [""]).append hcomment).append (.refl _)

theorem commented_modelLines (style : ModelStyle) (m : Model) :
    Commented (m.lines style) (m.withoutComments.lines style) := by
  have hproperty : ∀ p, Commented (Model.propertyLines style m.name p)
      (Model.propertyLines style m.name p.withoutComment) :=
    fun p => (commented_commentLine _ (by simp) p.description).append (.refl _)
  have hmember : ∀ e, Commented (Model.memberLines e) (Model.memberLines e.withoutComment) :=
    fun e => (commented_commentLine _ (by simp) e.comment).append (.refl _)
  refine (commented_commentLine _ (by simp) m.description).append ?_
  obtain ⟨name, description, kind⟩ := m
  cases kind with
  | interface ps =>
    refine ((Commented.refl _).append ?_).append (.refl _)
    rw [List.flatMap_map]
    exact .flatMap fun p _ => hproperty p
  | enum es =>
    refine ((Commented.refl _).append ?_).append (.refl _)
    rw [List.flatMap_map]
    exact .flatMap fun e _ => hmember e
  | aliased target nullable => exact .refl _

theorem areCommented_functions (a : Api) :
    AreCommented (functions a).files (functions a.withoutComments).files := by
  have hfiles : ∀ e, AreCommented (functionFiles a e)
      (functionFiles a.withoutComments e.withoutComment) := by
    intro e
    have hstem : stem a.withoutComments.endpoints e.withoutComment = stem a.endpoints e :=
      keepsNames_withoutComment.stem_map a.endpoints e
    unfold functionFiles
    rw [hstem]
    exact .cons (isCommentedFile_of_lines (.refl _))
      (.cons (isCommentedFile_of_lines (commented_functionLines e _ _ _ _)) .nil)
  have hall : ∀ es : List Endpoint, AreCommented (es.flatMap (functionFiles a))
      ((es.map withoutComment).flatMap (functionFiles a.withoutComments)) := by
    intro es
    induction es with
    | nil => exact .nil
    | cons e es ih => exact List.rel_append (hfiles e) ih
  exact hall a.endpoints

theorem commented_methodsLines (style : CallStyle) (names : List String) (es : List Endpoint) :
    Commented (methodsLines style (names.zip es))
      (methodsLines style (names.zip (es.map withoutComment))) := by
  rw [List.zip_map_right, methodsLines, methodsLines, List.map_map]
  refine Commented.intercalate (f := fun p : String × Endpoint => methodLines style p.1 p.2)
    (g := fun p => methodLines style p.1 p.2.withoutComment) (fun p _ => ?_) [""]
  exact commented_methodLines style p.1 p.2

theorem areCommented_services (style : CallStyle) (a : Api) :
    AreCommented (services style a).files (services style a.withoutComments).files := by
  have hclass : ∀ group es, IsCommentedFile (classFile style a group es)
      (classFile style a.withoutComments group (es.map withoutComment)) := by
    intro group es
    have htypes : (es.map withoutComment).flatMap mentionedTypes = es.flatMap mentionedTypes :=
      List.flatMap_map _ _ es
    refine isCommentedFile_of_lines ?_
    unfold classLines
    rw [htypes, methodNames_map keepsNames_withoutComment]
    exact ((Commented.refl _).append (commented_methodsLines style _ es)).append (.refl _)
  show AreCommented (List.map _ _) (List.map _ (groups (a.endpoints.map withoutComment)))
  rw [groups_map keepsNames_withoutComment, Entries.mapValues, List.map_map]
  exact List.forall₂_map_left_iff.2 (List.forall₂_map_right_iff.2 (List.forall₂_same.2
    fun g _ => hclass g.1 g.2))

theorem areCommented_script (a : Api) :
    AreCommented (script a).files (script a.withoutComments).files := by
  refine .cons (isCommentedFile_of_lines (.line _ ?_)) .nil
  show Commented _ ((a.endpoints.map withoutComment).flatMap scriptFunction)
  rw [List.flatMap_map]
  exact .flatMap fun e _ => commented_scriptFunction e

theorem areCommented_models (s : ModelSet) (style : ModelStyle) (only : List String) :
    AreCommented (s.files style only) (s.withoutComments.files style only) := by
  have hfile : ∀ m : Model, IsCommentedFile (m.file style) (m.withoutComments.file style) := by
    intro m
    have hname : m.withoutComments.fileName style = m.fileName style := by
      obtain ⟨name, description, kind⟩ := m
      cases kind <;> rfl
    unfold Model.file
    rw [hname]
    exact isCommentedFile_of_lines (commented_modelLines style m)
  unfold ModelSet.files ModelSet.withoutComments
  rw [List.filter_map, List.map_map]
  exact List.forall₂_map_left_iff.2 (List.forall₂_map_right_iff.2 (List.forall₂_same.2
    fun m _ => hfile m))

/-- A document does not get out of the comments that it is quoted in. The text of a comment neither
ends the comment nor breaks a line. The call functions, the services of either style, the script and
the models of a document are the files that they would be if the document said nothing about its
endpoints and models, with comments between their lines, and each of the comments ends at its own
end and not before. -/
theorem commentText_isClosed_and_areCommented :
    (∀ text : Option String, ¬ commentEnd <:+: (commentText text).toList ∧
      ∀ c ∈ ['\n', '\r', '\u2028', '\u2029'], c ∉ (commentText text).toList) ∧
    (∀ a : Api, AreCommented (functions a).files (functions a.withoutComments).files ∧
      (∀ style, AreCommented (services style a).files (services style a.withoutComments).files) ∧
      AreCommented (script a).files (script a.withoutComments).files) ∧
    ∀ (s : ModelSet) (style : ModelStyle) (only : List String),
      AreCommented (s.files style only) (s.withoutComments.files style only) := by
  refine ⟨fun text => ⟨not_infix_commentText text, fun c hc hmem => ?_⟩, fun a =>
    ⟨areCommented_functions a, fun style => areCommented_services style a, areCommented_script a⟩,
    areCommented_models⟩
  have hend : ∀ c ∈ ['\n', '\r', '\u2028', '\u2029'], Text.isLineEnd c = true :=
    List.all_eq_true.1 (by decide)
  exact absurd (hend c hc) (Bool.eq_false_iff.1 (isLineEnd_commentText c hmem))

end Render
end ApiScribe
