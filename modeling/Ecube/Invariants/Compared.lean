import Ecube.Services.FileCompare

/-!
What a match of the original and the copied file says.

The source is read, but the destination need not be: if reading it fails, its
recorded checksum stands in for what it holds. And the path of the destination
may be the job's last one instead of the drive that the file was copied to. The
match is about the copy on the file's own drive exactly when neither decides the
comparison.
-/

namespace Ecube.Compare

section Compared

variable {host : Host} {hashes : Hashes} {db : FilesDb} {ef : ExportFile} {fileId : Nat}

/-- Two known values that are equal. -/
theorem agree_eq_true {α : Type} [DecidableEq α] {a b : Option α} :
    agree a b = some true ↔ ∃ x, a = some x ∧ b = some x := by
  cases a with
  | none => simp [agree]
  | some x =>
      cases b with
      | none => simp [agree]
      | some y => simp [agree, eq_comm]

theorem compareItems_isMatch {a b : FileCompareItem} :
    (compareItems a b).isMatch = true ↔
      hashMatch a b = some true ∧ sizeMatch a b ≠ some false ∧ a.relativePath = b.relativePath := by
  simp [compareItems, pathMatch]

theorem available_eq_ok {path : Option Str} {e : CompareError} {p : Str} :
    available host path e = .ok p ↔ path = some p ∧ (host.view p).accessible = true := by
  rw [available, orReject_eq_ok, Option.filter_eq_some_iff]

theorem fileToItemFromPath_of_accessible {p : Str} {fallback : Option Str}
    (h : (host.view p).accessible = true) :
    fileToItemFromPath host hashes ef (some p) fallback =
      ⟨ef.id, ef.relativePath, (host.view p).content.map hashes.md5,
        ((host.view p).content.map hashes.sha256).or fallback,
        (host.view p).size.or ef.sizeBytes⟩ := by
  rw [fileToItemFromPath, Option.filter_some, if_pos h]

/-- Both paths exist and their sizes, as far as they are known, are equal. -/
structure Sides (host : Host) (db : FilesDb) (ef : ExportFile) (source destination : Str) : Prop where
  sourcePath : db.resolveSourceFilePath ef = some source
  sourceExists : (host.view source).accessible = true
  destinationPath : db.resolveDestinationFilePath ef = some destination
  destinationExists : (host.view destination).accessible = true
  size : agree ((host.view source).size.or ef.sizeBytes)
    ((host.view destination).size.or ef.sizeBytes) ≠ some false

/-- The result for the paths of a file that is compared with itself. -/
def compared (host : Host) (hashes : Hashes) (ef : ExportFile) (source destination : Str) :
    FileCompareResponse :=
  compareItems (fileToItemFromPath host hashes ef (some source) none)
    (fileToItemFromPath host hashes ef (some destination) ef.checksum)

theorem compareFiles_self (found : db.files.get fileId = some ef) {response : FileCompareResponse}
    {event : FileCompareEvent} :
    compareFiles host hashes db fileId fileId = .ok (response, event) ↔
      ∃ source destination,
        (db.resolveSourceFilePath ef = some source ∧ (host.view source).accessible = true) ∧
        (db.resolveDestinationFilePath ef = some destination ∧
          (host.view destination).accessible = true) ∧
        response = compared host hashes ef source destination ∧
        event = compareEvent ef ef .sourceDestination response := by
  simp only [compareFiles, found, sourceAndDestination, bind_eq_ok, orReject_eq_ok,
    available_eq_ok, if_true, pure_eq_ok, Option.some.injEq, Prod.mk.injEq]
  constructor
  · rintro ⟨_, rfl, _, rfl, _, ⟨source, hsource, destination, hdestination, rfl⟩, rfl, rfl⟩
    exact ⟨source, destination, hsource, hdestination, rfl, rfl⟩
  · rintro ⟨source, destination, hsource, hdestination, rfl, rfl⟩
    exact ⟨ef, rfl, ef, rfl, _, ⟨source, hsource, destination, hdestination, rfl⟩, rfl, rfl⟩

theorem compared_isMatch_iff {source destination : Str}
    (hsource : (host.view source).accessible = true)
    (hdestination : (host.view destination).accessible = true) :
    (compared host hashes ef source destination).isMatch = true ↔
      agree ((host.view source).size.or ef.sizeBytes)
          ((host.view destination).size.or ef.sizeBytes) ≠ some false ∧
        ∃ original, (host.view source).content = some original ∧
          ((host.view destination).content.map hashes.sha256).or ef.checksum =
            some (hashes.sha256 original) := by
  rw [compared, compareItems_isMatch, fileToItemFromPath_of_accessible hsource,
    fileToItemFromPath_of_accessible hdestination]
  -- The digests of a file are taken together, so MD5 decides nothing.
  have digests : hashMatch
      ⟨ef.id, ef.relativePath, (host.view source).content.map hashes.md5,
        ((host.view source).content.map hashes.sha256).or none,
        (host.view source).size.or ef.sizeBytes⟩
      ⟨ef.id, ef.relativePath, (host.view destination).content.map hashes.md5,
        ((host.view destination).content.map hashes.sha256).or ef.checksum,
        (host.view destination).size.or ef.sizeBytes⟩ =
      agree ((host.view source).content.map hashes.sha256)
        (((host.view destination).content.map hashes.sha256).or ef.checksum) := by
    cases (host.view source).content with
    | none => simp [hashMatch, agree]
    | some original =>
        cases (host.view destination).content with
        | none => cases ef.checksum <;> simp [hashMatch, agree]
        | some copy => simp [hashMatch, agree]
  rw [digests, agree_eq_true]
  constructor
  · rintro ⟨⟨digest, ha, hb⟩, size, -⟩
    obtain ⟨original, content, rfl⟩ := Option.map_eq_some_iff.mp ha
    exact ⟨size, original, content, hb⟩
  · rintro ⟨size, original, content, hb⟩
    exact ⟨⟨_, by rw [content, Option.map_some], hb⟩, size, rfl⟩

/-- The source is read, and what is read of the destination or else the recorded
checksum has the same digest. -/
theorem compareFiles_isMatch_iff (found : db.files.get fileId = some ef) :
    (∃ response event, compareFiles host hashes db fileId fileId = .ok (response, event) ∧
        response.isMatch = true) ↔
      ∃ source destination original, Sides host db ef source destination ∧
        (host.view source).content = some original ∧
        ((host.view destination).content.map hashes.sha256).or ef.checksum =
          some (hashes.sha256 original) := by
  constructor
  · rintro ⟨response, event, h, isMatch⟩
    obtain ⟨source, destination, ⟨hsource, hs⟩, ⟨hdestination, hd⟩, rfl, -⟩ :=
      (compareFiles_self found).mp h
    obtain ⟨size, original, content, digest⟩ := (compared_isMatch_iff hs hd).mp isMatch
    exact ⟨source, destination, original, ⟨hsource, hs, hdestination, hd, size⟩, content, digest⟩
  · rintro ⟨source, destination, original, sides, content, digest⟩
    refine ⟨compared host hashes ef source destination, compareEvent ef ef .sourceDestination
      (compared host hashes ef source destination), (compareFiles_self found).mpr ?_, ?_⟩
    · exact ⟨source, destination, ⟨sides.sourcePath, sides.sourceExists⟩,
        ⟨sides.destinationPath, sides.destinationExists⟩, rfl, rfl⟩
    · exact (compared_isMatch_iff sides.sourceExists sides.destinationExists).mpr
        ⟨sides.size, original, content, digest⟩

/-- The destination lies on the drive of the file's own assignment, at the
file's place. -/
def OnOwnDrive (host : Host) (db : FilesDb) (ef : ExportFile) (destination : Str) : Prop :=
  ∃ drive, db.assignedDrive ef = some drive ∧
    host.located destination = some (drive.id, ef.relativePath)

/-- The copy on the file's own drive was read to the end, and has the digest of
the source. -/
def SameOnOwnDrive (host : Host) (hashes : Hashes) (db : FilesDb) (ef : ExportFile) : Prop :=
  ∃ source destination original copy, db.resolveSourceFilePath ef = some source ∧
    db.resolveDestinationFilePath ef = some destination ∧
    (host.view source).content = some original ∧ (host.view destination).content = some copy ∧
    OnOwnDrive host db ef destination ∧ hashes.sha256 copy = hashes.sha256 original

/-- A destination that cannot be read has not the recorded checksum of the source,
and one that is the same as the source lies on the file's own drive. -/
def Conclusive (host : Host) (hashes : Hashes) (db : FilesDb) (ef : ExportFile) : Prop :=
  ∀ source destination original, Sides host db ef source destination →
    (host.view source).content = some original →
    ((host.view destination).content = none → ef.checksum ≠ some (hashes.sha256 original)) ∧
      ∀ copy, (host.view destination).content = some copy →
        hashes.sha256 copy = hashes.sha256 original → OnOwnDrive host db ef destination

/-- A match is about the copy on the file's own drive exactly for conclusive files. -/
theorem compareFiles_same_iff (found : db.files.get fileId = some ef) :
    (∀ response event, compareFiles host hashes db fileId fileId = .ok (response, event) →
        response.isMatch = true → SameOnOwnDrive host hashes db ef) ↔
      Conclusive host hashes db ef := by
  constructor
  · intro same source destination original sides content
    have certified : ((host.view destination).content.map hashes.sha256).or ef.checksum =
        some (hashes.sha256 original) → ∃ copy, (host.view destination).content = some copy ∧
          OnOwnDrive host db ef destination := by
      intro digest
      obtain ⟨response, event, h, isMatch⟩ := (compareFiles_isMatch_iff found).mpr
        ⟨source, destination, original, sides, content, digest⟩
      obtain ⟨_, destination', _, copy, -, path, -, read, own, -⟩ := same response event h isMatch
      obtain rfl : destination = destination' :=
        Option.some.inj (sides.destinationPath.symm.trans path)
      exact ⟨copy, read, own⟩
    constructor
    · intro unread recorded
      obtain ⟨copy, read, -⟩ := certified (by rw [unread, recorded]; rfl)
      rw [unread] at read
      cases read
    · intro copy read digest
      exact (certified (by rw [read, Option.map_some, digest]; rfl)).choose_spec.2
  · intro conclusive response event h isMatch
    obtain ⟨source, destination, original, sides, content, digest⟩ :=
      (compareFiles_isMatch_iff found).mp ⟨response, event, h, isMatch⟩
    obtain ⟨unread, own⟩ := conclusive source destination original sides content
    cases read : (host.view destination).content with
    | none =>
        rw [read] at digest
        exact absurd digest (unread read)
    | some copy =>
        rw [read, Option.map_some, Option.some_or, Option.some.injEq] at digest
        exact ⟨source, destination, original, copy, sides.sourcePath, sides.destinationPath, content,
          read, own copy read digest, digest⟩

end Compared

/-! ### A destination that cannot be read -/

namespace Unread

/-- A file of three bytes, copied to drive 1. -/
def file (checksum : Str) : ExportFile :=
  ⟨1, 1, some 1, "P".toList, "a.txt".toList, some 3, some checksum⟩

def db (checksum : Str) : FilesDb where
  files := ⟨[file checksum], 1, by simp, by simp [Row.id, file]⟩
  jobs := ⟨[⟨1, "/data".toList, some "/mnt/ecube/1".toList⟩], 1, by simp, by simp [Row.id]⟩
  assignments := ⟨[⟨1, 1⟩], 1, by simp, by simp [Row.id]⟩
  drives := ⟨[⟨1, some "/mnt/ecube/1".toList⟩], 1, by simp, by simp [Row.id]⟩

def source : Str := "/data/a.txt".toList

def destination : Str := "/mnt/ecube/1/a.txt".toList

/-- The source holds three bytes, the drive what is given. -/
def host (copy : Option (List UInt8)) : Host where
  view p := ⟨true, some 3, if p = source then some [1, 2, 3] else copy⟩
  located p := if p = source then none else some (1, "a.txt".toList)

theorem sides (checksum : Str) (copy : Option (List UInt8)) :
    Sides (host copy) (db checksum) (file checksum) source destination :=
  ⟨rfl, rfl, rfl, rfl, (by decide : agree (some 3) (some 3) ≠ some false)⟩

def hashes : Hashes := ⟨fun _ => [], fun bytes => bytes.map fun b => Nat.digitChar b.toNat⟩

end Unread

open Unread in
theorem compareFiles_same_iff_read :
    (∃ response event, response.isMatch = true ∧
      compareFiles (host (some [1, 2, 3])) hashes (db "123".toList) 1 1 = .ok (response, event)) ∧
    ∀ response event,
      compareFiles (host (some [1, 2, 3])) hashes (db "123".toList) 1 1 = .ok (response, event) →
      response.isMatch = true →
      SameOnOwnDrive (host (some [1, 2, 3])) hashes (db "123".toList) (file "123".toList) := by
  refine ⟨⟨_, _, ?_, rfl⟩, (compareFiles_same_iff (by rfl)).mpr ?_⟩
  · decide
  intro source' destination' original sides' content
  obtain rfl : destination = destination' := Option.some.inj
    ((Unread.sides _ (some [1, 2, 3])).destinationPath.symm.trans sides'.destinationPath)
  exact ⟨nofun, fun copy read digest => ⟨⟨1, some "/mnt/ecube/1".toList⟩, rfl, rfl⟩⟩

open Unread in
/-- Whatever the digests are, a destination that cannot be read matches by its
recorded checksum. -/
theorem compareFiles_matches_unread :
    ¬ ∃ hashes : Hashes, ∀ (host : Host) (db : FilesDb) (fileId : Nat) (ef : ExportFile)
      (response : FileCompareResponse) (event : FileCompareEvent), db.files.get fileId = some ef →
      compareFiles host hashes db fileId fileId = .ok (response, event) →
      response.isMatch = true → SameOnOwnDrive host hashes db ef := by
  rintro ⟨hashes, same⟩
  have found : (db (hashes.sha256 [1, 2, 3])).files.get 1 =
      some (file (hashes.sha256 [1, 2, 3])) := rfl
  have sides := Unread.sides (hashes.sha256 [1, 2, 3]) none
  have matched := @compareFiles_isMatch_iff (host none) hashes _ _ 1 found
  obtain ⟨response, event, h, isMatch⟩ :=
    matched.mpr ⟨source, destination, [1, 2, 3], sides, rfl, rfl⟩
  obtain ⟨_, destination', _, copy, -, path, -, read, -⟩ :=
    same (host none) _ 1 _ response event found h isMatch
  obtain rfl := Option.some.inj (sides.destinationPath.symm.trans path)
  cases read

end Ecube.Compare
