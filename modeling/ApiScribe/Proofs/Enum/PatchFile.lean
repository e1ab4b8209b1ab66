import ApiScribe.Proofs.Outcome
import ApiScribe.Proofs.Workspace.Interrupted
import ApiScribe.Workspace.Enums

/-! Patches in files. Whatever the names, comments and sources of patches are made of, a file that
was written for a patch document is read as its patches, and so is a list of them alone. -/
namespace ApiScribe
open Check Json

namespace PatchMember

theorem check_toValue (p : PatchMember) : PatchMember.check p.toValue = .ok p := by
  let m := p.toValue.entries?.getD []
  have hvalue : field m "value" string = .ok p.value := field_of_get? rfl rfl
  have hname : field? m "suggested_name" string = .ok p.suggestedName :=
    fieldOr_of_get? rfl (optional_string _)
  have hcomment : field? m "comment" string = .ok p.comment :=
    fieldOr_of_get? rfl (optional_string _)
  show (PatchMember.mk <$> field m "value" string <*> field? m "suggested_name" string
    <*> field? m "comment" string) = _
  rw [hvalue, hname, hcomment]
  rfl

end PatchMember

namespace EnumPatch

theorem check_toValue (p : EnumPatch) : EnumPatch.check p.toValue = .ok p := by
  let m := p.toValue.entries?.getD []
  have hname : field m "enum_name" string = .ok p.enumName := field_of_get? rfl rfl
  have hmembers : fieldOr m "members" [] (list PatchMember.check) = .ok p.members :=
    fieldOr_of_get? rfl (list_map fun q _ => q.check_toValue)
  have hsource : field? m "source" string = .ok p.source := fieldOr_of_get? rfl (optional_string _)
  have hconfidence : field? m "confidence" float = .ok p.confidence :=
    fieldOr_of_get? rfl (by cases p.confidence <;> rfl)
  show (EnumPatch.mk <$> field m "enum_name" string <*> fieldOr m "members" [] (list PatchMember.check)
    <*> field? m "source" string <*> field? m "confidence" float) = _
  rw [hname, hmembers, hsource, hconfidence]
  rfl

/-- Every confidence has a text in a format that is read as the confidence. -/
def KeepsConfidence (f : Format) (patches : List EnumPatch) : Prop :=
  ∀ p ∈ patches, ∀ x ∈ p.confidence, read (f.floatText x) = .ok (.float x)

end EnumPatch

theorem PatchDocument.check_toValue (d : PatchDocument) : PatchDocument.check d.toValue = .ok d := by
  let m := d.toValue.entries?.getD []
  have hversion : fieldOr m "schema_version" "1" string = .ok d.schemaVersion :=
    fieldOr_of_get? rfl rfl
  have hpatches : fieldOr m "patches" [] (list EnumPatch.check) = .ok d.patches :=
    fieldOr_of_get? rfl (list_map fun p _ => p.check_toValue)
  show (PatchDocument.mk <$> fieldOr m "schema_version" "1" string
    <*> fieldOr m "patches" [] (list EnumPatch.check)) = _
  rw [hversion, hpatches]
  rfl

/-! What a format keeps of patches. -/

theorem PatchMember.keeps_toValue (f : Format) (levels : Nat) (p : PatchMember) :
    f.Keeps (levels + 1) p.toValue := by
  refine .record (by simp) ?_
  simp [keeps_ofString?, Format.Keeps.str]

theorem EnumPatch.keeps_toValue {f : Format} (levels : Nat) {p : EnumPatch}
    (h : ∀ x ∈ p.confidence, read (f.floatText x) = .ok (.float x)) :
    f.Keeps (levels + 3) p.toValue := by
  have hmembers : f.Keeps (levels + 2) (.list (p.members.map PatchMember.toValue)) :=
    .list fun v hv => by
      obtain ⟨q, -, rfl⟩ := List.mem_map.1 hv
      exact q.keeps_toValue f levels
  have hconfidence : f.Keeps (levels + 2) ((p.confidence.map Value.float).getD .null) := by
    cases hp : p.confidence with
    | none => exact .null _
    | some x => exact .float _ (h x hp)
  refine .record (by simp) ?_
  simp [keeps_ofString?, Format.Keeps.str, hmembers, hconfidence]

theorem EnumPatch.keeps_list {f : Format} (levels : Nat) {patches : List EnumPatch}
    (h : KeepsConfidence f patches) :
    f.Keeps (levels + 4) (.list (patches.map EnumPatch.toValue)) :=
  .list fun v hv => by
    obtain ⟨p, hp, rfl⟩ := List.mem_map.1 hv
    exact p.keeps_toValue levels (h p hp)

theorem PatchDocument.keeps_toValue {f : Format} (levels : Nat) {d : PatchDocument}
    (h : EnumPatch.KeepsConfidence f d.patches) : f.Keeps (levels + 5) d.toValue := by
  refine .record (by simp) ?_
  simp [Format.Keeps.str, EnumPatch.keeps_list levels h]

namespace Job
variable {f : Format} {path : String} {w : Workspace}

/-- A file that holds a patch document is read as its patches. -/
theorem readPatches_run_of_document {d : PatchDocument}
    (h : HoldsJson w (.ofPath path) f d.toValue)
    (hconfidence : EnumPatch.KeepsConfidence f d.patches) :
    (readPatches path).run w = (.ok d.patches, w) := by
  have hjson := readJson_run h (PatchDocument.keeps_toValue 983 hconfidence)
  unfold readPatches
  rw [run_bind_ok hjson]
  have hcheck := d.check_toValue
  obtain ⟨m, hm⟩ : ∃ m, d.toValue = .map m := ⟨_, rfl⟩
  rw [hm] at hcheck ⊢
  dsimp only
  rw [hcheck]
  rfl

/-- A file that holds a list of patches is read as the list. -/
theorem readPatches_run_of_list {patches : List EnumPatch}
    (h : HoldsJson w (.ofPath path) f (.list (patches.map EnumPatch.toValue)))
    (hconfidence : EnumPatch.KeepsConfidence f patches) :
    (readPatches path).run w = (.ok patches, w) := by
  have hjson := readJson_run h (EnumPatch.keeps_list 984 hconfidence)
  unfold readPatches
  rw [run_bind_ok hjson]
  dsimp only
  rw [list_map fun p _ => p.check_toValue]
  rfl

/-- A patch document that was written is read back with exactly its patches, and so is a file that
holds only the list of them, in whatever JSON format it was written. -/
theorem readPatches_writePatches {d : PatchDocument} {w' : Workspace}
    (hconfidence : EnumPatch.KeepsConfidence stored d.patches)
    (hwrite : (writePatches path d).run w = (.ok (), w')) :
    (readPatches path).run w' = (.ok d.patches, w') ∧
      ∀ f other w'', EnumPatch.KeepsConfidence f d.patches →
        HoldsJson w'' (.ofPath other) f (.list (d.patches.map EnumPatch.toValue)) →
        (readPatches other).run w'' = (.ok d.patches, w'') :=
  ⟨readPatches_run_of_document (holdsJson_of_replace_run hwrite) hconfidence,
    fun _ _ _ hf h => readPatches_run_of_list h hf⟩

/-- Patches with every field set or not, and with characters that have to be escaped. -/
def colourPatches : PatchDocument :=
  { patches := [
      { enumName := "Colour"
        members := [{ value := "0", suggestedName := some "Red" },
          { value := "1", comment := some "\"b\\\n\r\x01 \u2028 𝄞" }]
        source := some ""
        confidence := some 0.7 },
      { enumName := "" }] }

/-- A workspace with a file that holds only the list of these patches, on one line. -/
def listWorkspace : Workspace :=
  { tree := ⟨[(["list.json"], .file (Text.utf8 (oneLine.write
      (.list (colourPatches.patches.map EnumPatch.toValue)) ++ String.ofList ['\n'])))]⟩ }

theorem readPatches_colourPatches :
    ∃ w', (writePatches "patches.json" colourPatches).run {} = (.ok (), w') ∧
      (readPatches "patches.json").run w' = (.ok colourPatches.patches, w') ∧
      (readPatches "list.json").run listWorkspace = (.ok colourPatches.patches, listWorkspace) := by
  have hnumber : Decimal.toFloat false 7 (-1) = 0.7 := by decide +kernel
  have hread : Json.read "0.7" = .ok (.float 0.7) := by
    rw [← hnumber]
    rfl
  have hkeeps : ∀ f : Format, f.floatText 0.7 = "0.7" →
      EnumPatch.KeepsConfidence f colourPatches.patches := by
    intro f htext p hp x hx
    simp only [colourPatches, List.mem_cons, List.not_mem_nil, or_false] at hp
    rcases hp with rfl | rfl
    · obtain rfl : 0.7 = x := by simpa using hx
      rw [htext, hread]
    · simp at hx
  have hstored := hkeeps stored (by decide +kernel)
  have hline := hkeeps oneLine (by decide +kernel)
  have hwrite : (writePatches "patches.json" colourPatches).run {} =
      (.ok (), ((writePatches "patches.json" colourPatches).run {}).2) :=
    Prod.ext (by decide +kernel) rfl
  have hplace : Location.ofPath "list.json" = ⟨"", ["list.json"]⟩ := by decide +kernel
  have hthere : ∀ content, FileTree.read ⟨[(["list.json"], .file content)]⟩ []
      (.ofPath "list.json") = .ok content := fun _ => by rw [hplace]; rfl
  obtain ⟨hdocument, hlist⟩ := readPatches_writePatches hstored hwrite
  exact ⟨_, hwrite, hdocument, hlist oneLine "list.json" listWorkspace hline
    ⟨by decide +kernel, ['\n'], by simp, hthere _⟩⟩

end Job
end ApiScribe
