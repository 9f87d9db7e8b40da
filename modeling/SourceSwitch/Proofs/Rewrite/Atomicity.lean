import SourceSwitch.Proofs.Files.Writing
import SourceSwitch.Rewrite.File

namespace SourceSwitch

open Files (Fault)
open Disk (Course)

/-- The write of a new content breaks off, and the bytes that got into the file are not those that
were there. -/
def IsTorn {σ : Type} (course : Disk → ByteArray → Course) (ask : Lookup σ) (mode : Mode)
    (dryRun : Bool) (path : Path) (d : Disk) (s : σ) : Prop :=
  ∃ content count fault, d.readText path = .ok content ∧ ¬ dryRun ∧
    (transform ask mode content s).1.changed ∧
    course d (Text.encode (transform ask mode content s).1.content) = .cut count fault ∧
    (Text.encode (transform ask mode content s).1.content).extract 0 count ≠ Text.encode content

section

variable {σ : Type} {course : Disk → ByteArray → Course} {ask : Lookup σ} {mode : Mode}
  {dryRun : Bool} {path : Path} {d : Disk} {s : σ} {content : Text}

theorem read_of_readText (h : d.readText path = .ok content) :
    d.read path = .ok (Text.encode content) := by
  cases hread : d.read path with
  | error e =>
    simp only [Disk.readText, hread] at h
    cases h
  | ok old =>
    simp only [Disk.readText, hread, bind, Except.bind] at h
    split at h
    · next t ht =>
      obtain rfl : t = content := Except.ok.inj h
      rw [Text.encode_of_decode? ht]
    · cases h

theorem rewriteFileAlong_of_error {e : Fault} (h : d.readText path = .error e) :
    rewriteFileAlong course ask mode dryRun path d s
      = (⟨.error (.read path e), []⟩, d, s) := by
  rw [rewriteFileAlong, h]

theorem rewriteFileAlong_of_keep (h : d.readText path = .ok content)
    (hkeep : ¬ ((transform ask mode content s).1.changed ∧ ¬ dryRun)) :
    rewriteFileAlong course ask mode dryRun path d s
      = (.unwritten path (transform ask mode content s).1, d,
        (transform ask mode content s).2) := by
  rw [rewriteFileAlong, h]
  exact if_neg hkeep

theorem rewriteFileAlong_of_write (h : d.readText path = .ok content)
    (hwrite : (transform ask mode content s).1.changed ∧ ¬ dryRun) :
    rewriteFileAlong course ask mode dryRun path d s
      = (let bytes := Text.encode (transform ask mode content s).1.content
        let write := d.write (course d bytes) path bytes
        (.written mode path (transform ask mode content s).1 write.1, write.2,
          (transform ask mode content s).2)) := by
  rw [rewriteFileAlong, h]
  exact if_pos hwrite

theorem exists_error_written_iff (mode : Mode) (path : Path) (t : Transformation)
    (result : Except Fault Unit) :
    (∃ e, (FileOutcome.written mode path t result).result = .error e) ↔
      ∃ e, result = .error e := by
  cases result <;> simp [FileOutcome.written]

theorem left_of_error_iff (course : Course) (old new : ByteArray) :
    ((∃ e, course.result = .error e) → course.left old new = old) ↔
      ¬ ∃ count fault, course = .cut count fault ∧ new.extract 0 count ≠ old := by
  cases course <;> simp [Course.result, Course.left]

theorem not_isTorn_of_error {e : Fault} (h : d.readText path = .error e) :
    ¬ IsTorn course ask mode dryRun path d s := by
  rintro ⟨content, _, _, hcontent, -⟩
  rw [h] at hcontent
  cases hcontent

theorem isTorn_iff (h : d.readText path = .ok content) : IsTorn course ask mode dryRun path d s ↔
    ((transform ask mode content s).1.changed ∧ ¬ dryRun) ∧ ∃ count fault,
      course d (Text.encode (transform ask mode content s).1.content) = .cut count fault ∧
      (Text.encode (transform ask mode content s).1.content).extract 0 count
        ≠ Text.encode content := by
  constructor
  · rintro ⟨content', count, fault, hcontent, hdry, hchanged, hcut⟩
    obtain rfl : content = content' := Except.ok.inj (h.symm.trans hcontent)
    exact ⟨⟨hchanged, hdry⟩, count, fault, hcut⟩
  · rintro ⟨⟨hchanged, hdry⟩, count, fault, hcut⟩
    exact ⟨content, count, fault, h, hdry, hchanged, hcut⟩

theorem sameFiles_of_error_iff_of_readText (h : d.readText path = .ok content) :
    let r := rewriteFileAlong course ask mode dryRun path d s
    ((∃ e, r.1.result = .error e) → d.SameFiles r.2.1) ↔
      ¬ IsTorn course ask mode dryRun path d s := by
  intro r
  rw [isTorn_iff h]
  by_cases hwrite : (transform ask mode content s).1.changed ∧ ¬ dryRun
  · have hr : r = _ := rewriteFileAlong_of_write h hwrite
    have hold := read_of_readText h
    obtain ⟨-, -, -, hresult, -⟩ := Disk.write_of_read hold
      (course d (Text.encode (transform ask mode content s).1.content))
      (Text.encode (transform ask mode content s).1.content)
    rw [hr]
    simp only [exists_error_written_iff, Disk.sameFiles_write_iff hold, hresult, left_of_error_iff]
    exact not_congr (and_iff_right hwrite).symm
  · have hr : r = _ := rewriteFileAlong_of_keep h hwrite
    rw [hr]
    exact iff_of_true (fun _ => .refl d) fun htorn => hwrite htorn.1

theorem IsTorn.not_sameFiles (h : IsTorn course ask mode dryRun path d s) :
    let r := rewriteFileAlong course ask mode dryRun path d s
    (∃ e, r.1.result = .error e) ∧ ¬ d.SameFiles r.2.1 := by
  obtain ⟨content, -, -, hread, -⟩ := id h
  exact Classical.not_imp.mp fun himp => (sameFiles_of_error_iff_of_readText hread).mp himp h

theorem file?_rewriteFileAlong_of_ne {place : List Text} (hne : d.locate path ≠ .ok place) :
    (rewriteFileAlong course ask mode dryRun path d s).2.1.root.file? place
      = d.root.file? place := by
  cases hread : d.readText path with
  | error e => rw [rewriteFileAlong_of_error hread]
  | ok content =>
    by_cases hwrite : (transform ask mode content s).1.changed ∧ ¬ dryRun
    · obtain ⟨own, hown, -, -, hfiles⟩ := Disk.write_of_read (read_of_readText hread)
        (course d (Text.encode (transform ask mode content s).1.content))
        (Text.encode (transform ask mode content s).1.content)
      rw [rewriteFileAlong_of_write hread hwrite]
      simp only
      rw [hfiles, if_neg]
      rintro rfl
      exact hne hown
    · rw [rewriteFileAlong_of_keep hread hwrite]

end

/-- After a failure all files are as they were exactly if the write is not torn; and files other
than the one at the path are as they were in any case. -/
theorem sameFiles_of_error_iff {σ : Type} (course : Disk → ByteArray → Course) (ask : Lookup σ)
    (mode : Mode) (dryRun : Bool) (path : Path) (d : Disk) (s : σ) :
    let r := rewriteFileAlong course ask mode dryRun path d s
    (((∃ e, r.1.result = .error e) → d.SameFiles r.2.1) ↔
      ¬ IsTorn course ask mode dryRun path d s) ∧
      ∀ place, d.locate path ≠ .ok place → r.2.1.root.file? place = d.root.file? place := by
  refine ⟨?_, fun place hne => file?_rewriteFileAlong_of_ne hne⟩
  cases hread : d.readText path with
  | error e =>
    rw [rewriteFileAlong_of_error hread]
    exact iff_of_true (fun _ => .refl d) (not_isTorn_of_error hread)
  | ok content => exact sameFiles_of_error_iff_of_readText hread

def publishedContent : Text :=
  joinLines "\n" true [r#"module "vnet" {"#, r#"  source = "acme/vnet/azure""#, r"}"]

/-- A disk on which no byte can be written any more. -/
def crampedDisk : Disk :=
  ⟨.folder [("main.tf", .file (Text.encode publishedContent)), ("dns.tf", .file .empty)], [], .full⟩

theorem locate_crampedDisk : crampedDisk.locate ⟨"main.tf"⟩ = .ok ["main.tf"] :=
  Disk.locate_entry (by decide) (by decide) (by decide) (by decide) rfl rfl nofun

theorem readText_crampedDisk : crampedDisk.readText ⟨"main.tf"⟩ = .ok publishedContent := by
  have hnode : crampedDisk.node ⟨"main.tf"⟩ = .ok (.file (Text.encode publishedContent)) := by
    rw [Disk.node, locate_crampedDisk]
    rfl
  have hread : crampedDisk.read ⟨"main.tf"⟩ = .ok (Text.encode publishedContent) := by
    rw [Disk.read, hnode]
    rfl
  simp only [Disk.readText, hread, bind, Except.bind, Text.decode?_encode]

def rewriteCramped : FileOutcome × Disk × Unit :=
  rewriteFile (.fixed fun c => .error (.notFound c.text)) (.toTree "acme/vnet/azure") false
    ⟨"main.tf"⟩ crampedDisk ()

theorem isTorn_crampedDisk : IsTorn (·.course ⟨"main.tf"⟩)
    (.fixed fun c => .error (.notFound c.text))
    (.toTree "acme/vnet/azure") false ⟨"main.tf"⟩ crampedDisk () := by
  refine (isTorn_iff readText_crampedDisk).mpr ⟨⟨by decide +kernel, by decide⟩, 0, .full, ?_, ?_⟩
  · rw [Disk.course_of_locate locate_crampedDisk rfl]
    decide +kernel
  · decide +kernel

theorem sameFiles_of_error_iff_crampedDisk :
    crampedDisk.locate ⟨"main.tf"⟩ ≠ .ok ["dns.tf"] ∧
      (((∃ e, rewriteCramped.1.result = .error e) → crampedDisk.SameFiles rewriteCramped.2.1) ↔
        ¬ IsTorn (·.course ⟨"main.tf"⟩) (.fixed fun c => .error (.notFound c.text))
          (.toTree "acme/vnet/azure") false ⟨"main.tf"⟩ crampedDisk ()) ∧
      rewriteCramped.2.1.root.file? ["dns.tf"] = crampedDisk.root.file? ["dns.tf"] := by
  have hne : crampedDisk.locate ⟨"main.tf"⟩ ≠ .ok ["dns.tf"] := by
    rw [locate_crampedDisk]
    intro h
    exact absurd (Except.ok.inj h) (by decide)
  obtain ⟨hiff, hother⟩ := sameFiles_of_error_iff (·.course ⟨"main.tf"⟩)
    (.fixed fun c => .error (.notFound c.text)) (.toTree "acme/vnet/azure") false ⟨"main.tf"⟩
    crampedDisk ()
  exact ⟨hne, hiff, hother _ hne⟩

/-- The write fails, and the file has lost its content. -/
theorem exists_error_not_sameFiles : (∃ e, rewriteCramped.1.result = .error e) ∧
    ¬ crampedDisk.SameFiles rewriteCramped.2.1 :=
  isTorn_crampedDisk.not_sameFiles

end SourceSwitch
