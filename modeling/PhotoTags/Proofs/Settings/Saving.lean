import PhotoTags.Proofs.Files.Writing
import PhotoTags.Proofs.Json.Documents
import PhotoTags.Proofs.Text.Utf8
import PhotoTags.Settings

/-!
Settings that are saved are the settings that are loaded, for every precision that a number of 64
bits can hold; loading never gives another one, however its file is spelled.
-/

namespace PhotoTags.Settings

def contents (settings : Settings) : Json :=
  .object [(some "output", .object [(some "dry_run", .bool settings.dryRun),
      (some "backup_originals", .bool settings.backups), (some "json", .bool settings.json)]),
    (some "display", .object [
      (some "coordinate_precision", .number (Text.decimal settings.precision))])]

theorem value?_document (settings : Settings) :
    settings.document.value? = some settings.contents := by
  simp [document, contents, Json.Document.value?, Json.Document.memberValues?,
    Text.signedDecimal_natCast]

theorem precision?_decimal {precision : Nat} (within : precision < Text.bound64) :
    precision? (.number (Text.decimal precision)) = some precision := by
  simp [precision?, Text.natural?_decimal, Option.filter, within]

theorem ofJson?_contents {settings : Settings} (within : settings.precision < Text.bound64) :
    ofJson? settings.contents = some settings := by
  simp [ofJson?, contents, group?, member?, output?, display?, bool?, precision?_decimal within]

theorem ofContent_text {settings : Settings} (within : settings.precision < Text.bound64) :
    ofContent (Text.utf8 settings.text.toList) = .ok settings := by
  have parsed : ofText? settings.text.toList = some settings := by
    rw [ofText?, text, Json.Document.read?_text settings.value?_document, Option.bind_some,
      ofJson?_contents within]
  simp only [ofContent, Text.ofUtf8?_utf8, parsed]

theorem precision_lt_of_ofJson? {json : Json} {settings : Settings}
    (read : ofJson? json = some settings) : settings.precision < Text.bound64 := by
  unfold ofJson? at read
  split at read
  · rename_i output display _
    obtain ⟨⟨dryRun, backups, asJson⟩, -, read⟩ := Option.bind_eq_some_iff.mp read
    obtain ⟨precision, shown, read⟩ := Option.bind_eq_some_iff.mp read
    obtain rfl := Option.some.inj read
    unfold display? at shown
    split at shown
    · unfold precision? at shown
      split at shown
      · exact of_decide_eq_true (Option.filter_eq_some_iff.mp shown).2
      · cases shown
    · cases shown
  · cases read

theorem ofContent_eq_ok_iff {content : Bytes} {settings : Settings} :
    ofContent content = .ok settings ↔
      ∃ text, Text.ofUtf8? content = some text ∧ ofText? text = some settings := by
  unfold ofContent
  cases Text.ofUtf8? content with
  | none => simp
  | some text => cases parsed : ofText? text <;> simp [parsed]

theorem precision_lt_of_load {tree : FileTree} {path : Path} {settings : Settings}
    (loaded : load tree path = .ok settings) : settings.precision < Text.bound64 := by
  unfold load at loaded
  split at loaded
  · split at loaded
    · cases loaded
    · obtain ⟨text, -, parsed⟩ := ofContent_eq_ok_iff.mp loaded
      obtain ⟨json, -, read⟩ := Option.bind_eq_some_iff.mp parsed
      exact precision_lt_of_ofJson? read
  · obtain rfl := Except.ok.inj loaded
    decide

theorem save_eq_ok_iff {settings : Settings} {tree after : FileTree} {path : Path} :
    settings.save tree path = .ok after ↔
      tree.write path (Text.utf8 settings.text.toList) = .ok after := by
  unfold save
  cases tree.write path (Text.utf8 settings.text.toList) <;> simp

theorem read_save {settings : Settings} {tree after : FileTree} {path : Path}
    (saved : settings.save tree path = .ok after) :
    after.read path = .ok (Text.utf8 settings.text.toList) :=
  FileTree.read_write (save_eq_ok_iff.mp saved)

theorem load_of_read {tree : FileTree} {path : Path} {content : Bytes}
    (read : tree.read path = .ok content) : load tree path = ofContent content := by
  rw [load, if_pos (FileTree.holds_of_read read), read]

/-- The settings can be saved wherever a file of their length can be written, and are loaded from there
again. -/
def ComesBack (settings : Settings) : Prop :=
  ∀ tree path,
    (∀ content : Bytes, content.length = (Text.utf8 settings.text.toList).length →
      ((∃ after, settings.save tree path = .ok after) ↔
        ∃ after, tree.write path content = .ok after)) ∧
      ∀ after, settings.save tree path = .ok after → load after path = .ok settings

theorem comesBack {settings : Settings} (within : settings.precision < Text.bound64) :
    settings.ComesBack := by
  intro tree path
  constructor
  · intro content long
    simp only [save_eq_ok_iff, FileTree.exists_write_iff, FileTree.fitting_eq_self_iff, long]
  · intro after saved
    rw [load_of_read (read_save saved), ofContent_text within]

theorem utf8_text_inj {left right : Settings} (leftWithin : left.precision < Text.bound64)
    (rightWithin : right.precision < Text.bound64) :
    Text.utf8 left.text.toList = Text.utf8 right.text.toList ↔ left = right := by
  constructor
  · intro same
    have read := ofContent_text leftWithin
    rw [same, ofContent_text rightWithin] at read
    exact (Except.ok.inj read).symm
  · rintro rfl
    rfl

/-- All settings that can be held come back when they are saved, and so do all that are loaded from
whatever file. Two files hold the same bytes where the same settings were saved, and only there. -/
theorem settings_come_back :
    (∀ settings : Settings, settings.precision < Text.bound64 → settings.ComesBack) ∧
    (∀ tree path settings, load tree path = .ok settings →
      settings.precision < Text.bound64 ∧ settings.ComesBack) ∧
    ∀ (left right : Settings) (leftTree rightTree leftAfter rightAfter : FileTree)
      (leftPath rightPath : Path), left.precision < Text.bound64 →
      right.precision < Text.bound64 → left.save leftTree leftPath = .ok leftAfter →
      right.save rightTree rightPath = .ok rightAfter →
      (leftAfter.read leftPath = rightAfter.read rightPath ↔ left = right) := by
  refine ⟨fun settings => comesBack, fun tree path settings loaded => ?_, ?_⟩
  · have within := precision_lt_of_load loaded
    exact ⟨within, comesBack within⟩
  · intro left right leftTree rightTree leftAfter rightAfter leftPath rightPath leftWithin
      rightWithin leftSaved rightSaved
    rw [read_save leftSaved, read_save rightSaved, Except.ok.injEq,
      utf8_text_inj leftWithin rightWithin]

/-- A file in which one group is an array, a name is escaped and others mean nothing. -/
theorem settings_come_back_respelled :
    let path : Path := ⟨"config.json"⟩
    let text := "\x7b\"display\": [18446744073709551615],\n\t\"by\": [null, \"\\u00e9\"],".toList ++
      "\"output\":\x7b\"json\":true, \"dry\\u005frun\":false, \"scale\":-1.5e3,".toList ++
      "\"backup_originals\" : true\x7d\x7d\n".toList
    let tree : FileTree := { nodes := [(["config.json"], .file (Text.utf8 text))] }
    let settings : Settings := ⟨false, true, true, 18446744073709551615⟩
    load tree path = .ok settings ∧ settings.precision < Text.bound64 ∧ ∃ after defaults,
      settings.save tree path = .ok after ∧ load after path = .ok settings ∧
      default.save tree path = .ok defaults ∧ load defaults path = .ok default ∧
      after.read path ≠ defaults.read path := by
  intro path text tree settings
  obtain ⟨held, accepted, bytes⟩ := settings_come_back
  have leads (content : Bytes) : FileTree.locate { nodes := [(["config.json"], .file content)] }
      ⟨"config.json"⟩ = .ok ["config.json"] := by rfl
  have located : tree.locate path = .ok ["config.json"] := leads _
  have file : tree.node? ["config.json"] = some (.file (Text.utf8 text)) := by
    simp [tree, FileTree.node?]
  have parsed : ofText? text = some settings := by decide +kernel
  have loaded : load tree path = .ok settings := by
    rw [load_of_read (FileTree.read_eq_ok_iff.mpr ⟨_, located, file⟩)]
    exact ofContent_eq_ok_iff.mpr ⟨text, Text.ofUtf8?_utf8 text, parsed⟩
  have writable (content : Bytes) : ∃ after, tree.write path content = .ok after := by
    have free := FileTree.writable_eq_ok_iff.mpr
      ⟨⟨by decide, located⟩, by simp [file], by simp [FileTree.barrier?, tree]⟩
    exact FileTree.exists_write_iff.mpr ⟨_, free, rfl⟩
  obtain ⟨within, back⟩ := accepted tree path settings loaded
  have defaultWithin : default.precision < Text.bound64 := by decide
  have defaultBack := held default defaultWithin
  obtain ⟨after, saved⟩ := ((back tree path).1 _ rfl).mpr (writable _)
  obtain ⟨defaults, defaultSaved⟩ := ((defaultBack tree path).1 _ rfl).mpr (writable _)
  refine ⟨loaded, within, after, defaults, saved, (back tree path).2 after saved, defaultSaved,
    (defaultBack tree path).2 defaults defaultSaved, fun same => ?_⟩
  have equal := (bytes settings default tree tree after defaults path path within defaultWithin
    saved defaultSaved).mp same
  exact absurd equal (by decide)

end PhotoTags.Settings
