import SourceSwitch.Proofs.Files.Replacing
import SourceSwitch.Proofs.Rewrite.Atomicity
import SourceSwitch.Proofs.Rewrite.Caching

namespace SourceSwitch

open Files (Fault)

namespace Plan

def lookup? : Plan → Option Coordinates
  | pin _ c _ => some c
  | keep | rewrite _ | reject .. => none

variable {σ : Type} {p : Plan} {c : Coordinates}

theorem run_of_lookup?_eq_none (h : p.lookup? = none) (ask : Lookup σ) (b : ModuleBlock) (s : σ)
    (reply : Coordinates → Reply) : p.run ask b s = ((p.run (.constant reply) b ()).1, s) := by
  cases p with
  | keep | rewrite | reject => rfl
  | pin => cases h

theorem run_of_lookup? (h : p.lookup? = some c) (ask : Lookup σ) (b : ModuleBlock) (s : σ) :
    p.run ask b s = ((p.run (.constant fun _ => (ask c s).1) b ()).1, (ask c s).2) := by
  cases p with
  | keep | rewrite | reject => cases h
  | pin source own events =>
    obtain rfl := Option.some.inj h
    rfl

end Plan

/-- The verdict on a declaration depends on the answer to its lookup only. -/
theorem Edit.quiet_of_congr {mode : Mode} {b : ModuleBlock} {reply reply' : Coordinates → Reply}
    (h : ∀ c, (mode.plan b).lookup? = some c → (reply c).answer = (reply' c).answer)
    (lines : List Text) :
    (Edit.of mode reply lines b).quiet = (Edit.of mode reply' lines b).quiet := by
  have hverdict : ((mode.plan b).run (.constant reply) b ()).1.1
      = ((mode.plan b).run (.constant reply') b ()).1.1 := by
    cases hplan : mode.plan b with
    | keep | rewrite | reject => rfl
    | pin source c events =>
      have hanswer := h c (by rw [hplan]; rfl)
      simp only [Plan.run, Lookup.constant, Plan.settle, hanswer]
      cases (reply' c).answer.constraint <;> rfl
  exact congrArg (Edit.mk b (b.slice lines) · []) hverdict

structure Shared where
  disk : Disk
  cache : Cache

def Cache.hit (c : Coordinates) (r : Release) : Reply :=
  ⟨.ok r, [.debug .cache ("Cache hit for " ++ c.text ++ ": " ++ r.version)]⟩

/-- A file that was read: the declarations that are decided on, and those that are left. -/
structure Progress where
  content : Text
  edits : List Edit
  pending : List ModuleBlock

namespace Progress

def start (content : Text) : Progress := ⟨content, [], readBlocks (Text.lines content)⟩

def decide (p : Progress) (mode : Mode) (reply : Coordinates → Reply) (b : ModuleBlock)
    (rest : List ModuleBlock) : Progress :=
  ⟨p.content, p.edits ++ [.of mode reply (Text.lines p.content) b], rest⟩

def transformation (p : Progress) : Transformation := .ofEdits p.content p.edits

end Progress

/-- How far a file has come. -/
inductive Worker where
  | reading
  | planning (p : Progress)
  | asking (p : Progress) (b : ModuleBlock) (rest : List ModuleBlock) (c : Coordinates)
  | storing (p : Progress) (b : ModuleBlock) (rest : List ModuleBlock) (c : Coordinates)
      (reply : Reply) (r : Release)
  | writing (t : Transformation)
  | finished (outcome : FileOutcome)

namespace Worker

def isFinished : Worker → Bool
  | finished _ => true
  | reading | planning _ | asking .. | storing .. | writing _ => false

section Machine

variable (reply : Coordinates → Reply) (mode : Mode) (dryRun : Bool) (path : Path)

/-- One step of a worker, with the lookup that it completes. -/
inductive Step : Worker → Shared → Worker → Shared → Option Call → Prop
  | readFailed {s : Shared} {cause : Fault} : s.disk.readText path = .error cause →
      Step reading s (finished ⟨.error (.read path cause), []⟩) s none
  | read {s : Shared} {content : Text} : s.disk.readText path = .ok content →
      Step reading s (planning (.start content)) s none
  | decided {s : Shared} {p : Progress} {b : ModuleBlock} {rest : List ModuleBlock} :
      p.pending = b :: rest → (mode.plan b).lookup? = none →
      Step (planning p) s (planning (p.decide mode reply b rest)) s none
  | hit {s : Shared} {p : Progress} {b : ModuleBlock} {rest : List ModuleBlock}
      {c : Coordinates} {r : Release} :
      p.pending = b :: rest → (mode.plan b).lookup? = some c → s.cache.get? c = some r →
      Step (planning p) s (planning (p.decide mode (fun _ => Cache.hit c r) b rest)) s
        (some ⟨c, Cache.hit c r⟩)
  | missed {s : Shared} {p : Progress} {b : ModuleBlock} {rest : List ModuleBlock}
      {c : Coordinates} :
      p.pending = b :: rest → (mode.plan b).lookup? = some c → s.cache.get? c = none →
      Step (planning p) s (asking p b rest c) s none
  | failed {s : Shared} {p : Progress} {b : ModuleBlock} {rest : List ModuleBlock}
      {c : Coordinates} {e : LookupError} : (reply c).answer = .error e →
      Step (asking p b rest c) s (planning (p.decide mode (fun _ => reply c) b rest)) s
        (some ⟨c, reply c⟩)
  | found {s : Shared} {p : Progress} {b : ModuleBlock} {rest : List ModuleBlock}
      {c : Coordinates} {r : Release} : (reply c).answer = .ok r →
      Step (asking p b rest c) s (storing p b rest c (reply c) r) s none
  | stored {s : Shared} {p : Progress} {b : ModuleBlock} {rest : List ModuleBlock}
      {c : Coordinates} {x : Reply} {r : Release} :
      Step (storing p b rest c x r) s (planning (p.decide mode (fun _ => x) b rest))
        { s with cache := s.cache.insert c r } (some ⟨c, x⟩)
  | kept {s : Shared} {p : Progress} :
      p.pending = [] → ¬ (p.transformation.changed ∧ ¬ dryRun) →
      Step (planning p) s (finished (.unwritten path p.transformation)) s none
  | changed {s : Shared} {p : Progress} :
      p.pending = [] → p.transformation.changed ∧ ¬ dryRun →
      Step (planning p) s (writing p.transformation) s none
  | written {s : Shared} {t : Transformation} {result : Except Fault Unit} {d : Disk} :
      s.disk.write (s.disk.course path (Text.encode t.content)) path (Text.encode t.content)
        = (result, d) →
      Step (writing t) s (finished (.written mode path t result)) { s with disk := d } none

inductive Runs : Worker → Shared → Worker → Shared → Prop
  | refl {w : Worker} {s : Shared} : Runs w s w s
  | head {w w' w'' : Worker} {s s' s'' : Shared} {call : Option Call} :
      Step reply mode dryRun path w s w' s' call → Runs w' s' w'' s'' → Runs w s w'' s''

end Machine

variable {reply : Coordinates → Reply} {mode : Mode} {dryRun : Bool} {path : Path} {d : Disk}

theorem exists_step {w : Worker} (h : ¬ w.isFinished) (s : Shared) :
    ∃ w' s' call, Step reply mode dryRun path w s w' s' call := by
  cases w with
  | reading =>
    cases hread : s.disk.readText path with
    | error cause => exact ⟨_, _, _, .readFailed hread⟩
    | ok content => exact ⟨_, _, _, .read hread⟩
  | planning p =>
    cases hpending : p.pending with
    | nil =>
      by_cases hchanged : p.transformation.changed ∧ ¬ dryRun
      · exact ⟨_, _, _, .changed hpending hchanged⟩
      · exact ⟨_, _, _, .kept hpending hchanged⟩
    | cons b rest =>
      cases hlookup : (mode.plan b).lookup? with
      | none => exact ⟨_, _, _, .decided hpending hlookup⟩
      | some c =>
        cases hget : s.cache.get? c with
        | none => exact ⟨_, _, _, .missed hpending hlookup hget⟩
        | some r => exact ⟨_, _, _, .hit hpending hlookup hget⟩
  | asking p b rest c =>
    cases hanswer : (reply c).answer with
    | error e => exact ⟨_, _, _, .failed hanswer⟩
    | ok r => exact ⟨_, _, _, .found hanswer⟩
  | storing p b rest c x r => exact ⟨_, _, _, .stored⟩
  | writing t => exact ⟨_, _, _, .written rfl⟩
  | finished outcome => exact absurd rfl h

theorem Runs.trans {w w' w'' : Worker} {s s' s'' : Shared}
    (h : Runs reply mode dryRun path w s w' s') (h' : Runs reply mode dryRun path w' s' w'' s'') :
    Runs reply mode dryRun path w s w'' s'' := by
  induction h with
  | refl => exact h'
  | head hstep _ ih => exact .head hstep (ih h')

theorem runs_lookup {p : Progress} {b : ModuleBlock} {rest : List ModuleBlock} {c : Coordinates}
    (hpending : p.pending = b :: rest) (hlookup : (mode.plan b).lookup? = some c) (d : Disk)
    (cache : Cache) :
    let asked := Lookup.cached (Lookup.constant reply) c (cache, ())
    Runs reply mode dryRun path (planning p) ⟨d, cache⟩
      (planning (p.decide mode (fun _ => asked.1) b rest)) ⟨d, asked.2.1⟩ := by
  intro asked
  cases hget : cache.get? c with
  | some r =>
    have hasked : asked = (Cache.hit c r, (cache, ())) := by
      simp only [asked, Lookup.cached, hget]
      rfl
    rw [hasked]
    exact .head (.hit hpending hlookup hget) .refl
  | none =>
    apply Runs.head (.missed hpending hlookup hget)
    cases hanswer : (reply c).answer with
    | error e =>
      have hasked : asked = (reply c, (cache, ())) := by
        simp only [asked, Lookup.cached, hget, Lookup.constant, hanswer]
      rw [hasked]
      exact .head (.failed hanswer) .refl
    | ok r =>
      have hasked : asked = (reply c, (cache.insert c r, ())) := by
        simp only [asked, Lookup.cached, hget, Lookup.constant, hanswer]
      rw [hasked]
      exact .head (.found hanswer) (.head .stored .refl)

theorem runs_plan (p : Progress) (d : Disk) (cache : Cache) :
    let planned := Edit.plan (Lookup.cached (Lookup.constant reply)) mode (Text.lines p.content)
      p.pending (cache, ())
    Runs reply mode dryRun path (planning p) ⟨d, cache⟩
      (planning ⟨p.content, p.edits ++ planned.1, []⟩) ⟨d, planned.2.1⟩ := by
  obtain ⟨content, edits, pending⟩ := p
  induction pending generalizing edits cache with
  | nil =>
    simp only [Edit.plan, List.append_nil]
    exact .refl
  | cons b rest ih =>
    intro planned
    cases hlookup : (mode.plan b).lookup? with
    | none =>
      have hrun := Plan.run_of_lookup?_eq_none hlookup (Lookup.cached (Lookup.constant reply)) b
        (cache, ()) reply
      apply Runs.head (.decided rfl hlookup)
      have hih := ih cache (edits ++ [Edit.of mode reply (Text.lines content) b])
      simp only [List.append_assoc, List.singleton_append] at hih
      simp only [planned, Edit.plan, hrun]
      exact hih
    | some c =>
      have hrun := Plan.run_of_lookup? hlookup (Lookup.cached (Lookup.constant reply)) b (cache, ())
      apply Runs.trans (runs_lookup rfl hlookup d cache)
      have hih := ih (Lookup.cached (Lookup.constant reply) c (cache, ())).2.1
          (edits ++ [Edit.of mode
        (fun _ => (Lookup.cached (Lookup.constant reply) c (cache, ())).1) (Text.lines content) b])
      simp only [List.append_assoc, List.singleton_append] at hih
      simp only [planned, Edit.plan, hrun]
      exact hih

/-- What a worker comes to if no other comes between. -/
theorem runs_rewriteFile (reply : Coordinates → Reply) (mode : Mode) (dryRun : Bool) (path : Path)
    (d : Disk) (cache : Cache) :
    let done := rewriteFile (Lookup.cached (Lookup.constant reply)) mode dryRun path d (cache, ())
    Runs reply mode dryRun path reading ⟨d, cache⟩ (finished done.1) ⟨done.2.1, done.2.2.1⟩ := by
  intro done
  cases hread : d.readText path with
  | error cause =>
    have hdone : done = _ := rewriteFileAlong_of_error hread
    rw [hdone]
    exact .head (.readFailed hread) .refl
  | ok content =>
    apply Runs.head (.read hread)
    apply Runs.trans (runs_plan (.start content) d cache)
    let t := transform (Lookup.cached (Lookup.constant reply)) mode content (cache, ())
    by_cases hwrite : t.1.changed ∧ ¬ dryRun
    · have hdone : done = _ := rewriteFileAlong_of_write hread hwrite
      rw [hdone]
      exact .head (.changed rfl hwrite) (.head (.written rfl) .refl)
    · have hdone : done = _ := rewriteFileAlong_of_keep hread hwrite
      rw [hdone]
      exact .head (.kept rfl hwrite) .refl

end Worker

namespace Worker

def IsHonest (reply : Coordinates → Reply) : Worker → Prop
  | storing _ _ _ c x r => x.answer = (reply c).answer ∧ x.answer = .ok r
  | reading | planning _ | asking .. | writing _ | finished _ => True

theorem Step.isHonest {w w' : Worker} {s s' : Shared} {call : Option Call}
    (h : Step reply mode dryRun path w s w' s' call) (hw : w.IsHonest reply)
    (hcache : s.cache.IsTruthful reply) : s'.cache.IsTruthful reply ∧ w'.IsHonest reply ∧
      ∀ x, call = some x → x.reply.answer = (reply x.coordinates).answer := by
  cases h with
  | readFailed | read | decided | missed | kept | changed | written =>
    exact ⟨hcache, trivial, fun x hx => by cases hx⟩
  | found hanswer => exact ⟨hcache, ⟨rfl, hanswer⟩, fun x hx => by cases hx⟩
  | hit hpending hlookup hget =>
    refine ⟨hcache, trivial, ?_⟩
    rintro x ⟨⟩
    exact (hcache _ _ hget).symm
  | failed =>
    refine ⟨hcache, trivial, ?_⟩
    rintro x ⟨⟩
    rfl
  | stored =>
    obtain ⟨hreply, hrelease⟩ := hw
    refine ⟨hcache.insert (hreply.symm.trans hrelease), trivial, ?_⟩
    rintro x ⟨⟩
    exact hreply

end Worker

/-- The disks differ in nothing but files, the file that the path leads to is the same, and it is
written alike. -/
structure Disk.Agrees (e d : Disk) (path : Path) : Prop where
  frame_eq : e.frame = d.frame
  file?_eq : ∀ place, d.locate path = .ok place → e.root.file? place = d.root.file? place
  course_eq : ∀ place, d.locate path = .ok place → ∀ bytes,
    e.course path bytes = d.course path bytes

def Disk.update (d : Disk) : Option (List Text × ByteArray) → Disk
  | none => d
  | some (place, content) => d.replace place content

section Alone

variable (reply : Coordinates → Reply) (mode : Mode) (dryRun : Bool) (d : Disk) (path : Path)

def resultAlone : Except Failure FileReport :=
  (rewriteFile (.constant reply) mode dryRun path d ()).1.result

/-- The place of a file with the bytes that handling it leaves there, if it is written. -/
def update? : Option (List Text × ByteArray) :=
  match d.locate path, d.readText path with
  | .ok place, .ok content =>
    let t := (transform (.constant reply) mode content ()).1
    let bytes := Text.encode t.content
    if t.changed ∧ ¬ dryRun then
      some (place, (d.course path bytes).left (Text.encode content) bytes)
    else none
  | _, _ => none

structure Progress.IsOf (p : Progress) : Prop where
  readText_eq : d.readText path = .ok p.content
  edits_eq : (p.edits ++ p.pending.map (Edit.of mode reply (Text.lines p.content))).map Edit.quiet
    = ((readBlocks (Text.lines p.content)).map
        (Edit.of mode reply (Text.lines p.content))).map Edit.quiet

/-- The worker is on the way to what the file comes to alone. -/
def Worker.IsOnTrack : Worker → Prop
  | reading => True
  | planning p => p.IsOf reply mode d path
  | asking p b rest c =>
    p.IsOf reply mode d path ∧ p.pending = b :: rest ∧ (mode.plan b).lookup? = some c
  | storing p b rest c x _ =>
    p.IsOf reply mode d path ∧ p.pending = b :: rest ∧ (mode.plan b).lookup? = some c ∧
      x.answer = (reply c).answer
  | writing t => ∃ content, d.readText path = .ok content ∧
      t.quiet = (transform (.constant reply) mode content ()).1.quiet ∧ t.changed ∧ ¬ dryRun
  | finished outcome => outcome.result = resultAlone reply mode dryRun d path

end Alone

variable {reply : Coordinates → Reply} {mode : Mode} {dryRun : Bool} {d e : Disk} {path : Path}
  {content : Text} {t t' : Transformation}

theorem Transformation.changed_eq_of_quiet (h : t.quiet = t'.quiet) : t.changed = t'.changed := by
  change t.quiet.changed = t'.quiet.changed
  rw [h]

theorem Transformation.content_eq_of_quiet (h : t.quiet = t'.quiet) : t.content = t'.content := by
  change t.quiet.content = t'.quiet.content
  rw [h]

theorem FileReport.of_congr (h : t.quiet = t'.quiet) (path : Path) :
    FileReport.of path t = FileReport.of path t' := by
  change FileReport.of path t.quiet = FileReport.of path t'.quiet
  rw [h]

theorem FileOutcome.result_written_congr (h : t.quiet = t'.quiet) (mode : Mode) (path : Path)
    (result : Except Fault Unit) :
    (written mode path t result).result = (written mode path t' result).result := by
  cases result with
  | error cause => rfl
  | ok => exact congrArg Except.ok (FileReport.of_congr h path)

theorem Disk.Agrees.exists_write_eq (h : e.Agrees d path) (hread : d.readText path = .ok content)
    (bytes : ByteArray) : ∃ place, d.locate path = .ok place ∧
      e.write (e.course path bytes) path bytes = ((d.course path bytes).result,
        e.replace place ((d.course path bytes).left (Text.encode content) bytes)) := by
  have hcontent : e.read path = .ok (Text.encode content) := by
    rw [Disk.read_congr h.frame_eq h.file?_eq, read_of_readText hread]
  obtain ⟨place, hplace, heq⟩ := Disk.write_eq_replace hcontent (e.course path bytes) bytes
  rw [Disk.locate_congr h.frame_eq] at hplace
  rw [h.course_eq place hplace] at heq ⊢
  exact ⟨place, hplace, heq⟩

theorem Disk.Agrees.refl (d : Disk) (path : Path) : d.Agrees d path :=
  ⟨rfl, fun _ _ => rfl, fun _ _ _ => rfl⟩

theorem resultAlone_of_error {cause : Fault} (h : d.readText path = .error cause) :
    resultAlone reply mode dryRun d path = .error (.read path cause) := by
  rw [resultAlone, rewriteFile, rewriteFileAlong_of_error h]

theorem resultAlone_of_keep (h : d.readText path = .ok content)
    (ht : t.quiet = (transform (.constant reply) mode content ()).1.quiet)
    (hkeep : ¬ (t.changed ∧ ¬ dryRun)) :
    resultAlone reply mode dryRun d path = (FileOutcome.unwritten path t).result := by
  rw [Transformation.changed_eq_of_quiet ht] at hkeep
  rw [resultAlone, rewriteFile, rewriteFileAlong_of_keep h hkeep]
  exact congrArg Except.ok (FileReport.of_congr ht.symm path)

theorem resultAlone_of_write (h : d.readText path = .ok content)
    (ht : t.quiet = (transform (.constant reply) mode content ()).1.quiet)
    (hwrite : t.changed ∧ ¬ dryRun) : resultAlone reply mode dryRun d path
      = (FileOutcome.written mode path t
        (d.course path (Text.encode t.content)).result).result := by
  rw [Transformation.changed_eq_of_quiet ht] at hwrite
  obtain ⟨place, -, heq⟩ := (Disk.Agrees.refl d path).exists_write_eq h (Text.encode t.content)
  rw [resultAlone, rewriteFile, rewriteFileAlong_of_write h hwrite]
  simp only [← Transformation.content_eq_of_quiet ht, heq]
  exact FileOutcome.result_written_congr ht.symm mode path _

theorem update?_of_error {cause : Fault} (h : d.readText path = .error cause) :
    update? reply mode dryRun d path = none := by
  rw [update?, h]
  split <;> simp_all

theorem update?_of_keep (h : d.readText path = .ok content)
    (ht : t.quiet = (transform (.constant reply) mode content ()).1.quiet)
    (hkeep : ¬ (t.changed ∧ ¬ dryRun)) : update? reply mode dryRun d path = none := by
  rw [Transformation.changed_eq_of_quiet ht] at hkeep
  rw [update?, h]
  cases d.locate path with
  | error cause => rfl
  | ok place => exact if_neg hkeep

theorem update?_of_write {place : List Text} (hplace : d.locate path = .ok place)
    (h : d.readText path = .ok content)
    (ht : t.quiet = (transform (.constant reply) mode content ()).1.quiet)
    (hwrite : t.changed ∧ ¬ dryRun) : update? reply mode dryRun d path
      = some (place, (d.course path (Text.encode t.content)).left (Text.encode content)
          (Text.encode t.content)) := by
  rw [Transformation.changed_eq_of_quiet ht] at hwrite
  rw [update?, hplace, h, Transformation.content_eq_of_quiet ht]
  exact if_pos hwrite

theorem locate_of_update? {place : List Text} {bytes : ByteArray}
    (h : update? reply mode dryRun d path = some (place, bytes)) : d.locate path = .ok place := by
  rw [update?] at h
  split at h
  · next hplace _ =>
    simp only at h
    split at h
    · rw [hplace, (Prod.mk.inj (Option.some.inj h)).1]
    · cases h
  · cases h

/-- What a file comes to alone: what is reported of it, and what is put in its place. -/
inductive ComesTo (reply : Coordinates → Reply) (mode : Mode) (dryRun : Bool) (d : Disk)
    (path : Path) : Except Failure FileReport → Option (List Text × ByteArray) → Prop where
  | unread {cause : Fault} : d.readText path = .error cause →
      ComesTo reply mode dryRun d path (.error (.read path cause)) none
  | kept {content : Text} {t : Transformation} : d.readText path = .ok content →
      t = (transform (.constant reply) mode content ()).1 → ¬ (t.changed ∧ ¬ dryRun) →
      ComesTo reply mode dryRun d path (.ok (.of path t)) none
  | failed {cause : Fault} {place : List Text} {bytes left : ByteArray} : ¬ dryRun →
      (d.writes d.root place bytes).result = .error cause →
      ComesTo reply mode dryRun d path (.error (.write path cause)) (some (place, left))
  | whole {content : Text} {t : Transformation} {place : List Text} :
      d.readText path = .ok content → t = (transform (.constant reply) mode content ()).1 →
      t.changed ∧ ¬ dryRun → d.locate path = .ok place →
      ComesTo reply mode dryRun d path (.ok (.of path t)) (some (place, Text.encode t.content))

theorem comesTo (reply : Coordinates → Reply) (mode : Mode) (dryRun : Bool) (d : Disk)
    (path : Path) : ComesTo reply mode dryRun d path (resultAlone reply mode dryRun d path)
      (update? reply mode dryRun d path) := by
  cases hread : d.readText path with
  | error cause =>
    rw [resultAlone_of_error hread, update?_of_error hread]
    exact .unread hread
  | ok content =>
    by_cases hwrite : (transform (.constant reply) mode content ()).1.changed ∧ ¬ dryRun
    · obtain ⟨place, hplace, hold⟩ := Disk.exists_of_read (read_of_readText hread)
      rw [resultAlone_of_write hread rfl hwrite, update?_of_write hplace hread rfl hwrite,
        Disk.course_of_locate hplace hold]
      cases hcourse : d.writes d.root place (Text.encode
          (transform (.constant reply) mode content ()).1.content) with
      | refused cause | cut _ cause => exact .failed hwrite.2 (congrArg Disk.Course.result hcourse)
      | whole => exact .whole hread rfl hwrite hplace
    · rw [resultAlone_of_keep hread rfl hwrite, update?_of_keep hread rfl hwrite]
      exact .kept hread rfl hwrite

namespace Progress

theorem isOf_start (h : d.readText path = .ok content) : (start content).IsOf reply mode d path :=
  ⟨h, rfl⟩

variable {p : Progress} {b : ModuleBlock} {rest : List ModuleBlock} {reply' : Coordinates → Reply}

theorem IsOf.decide (h : p.IsOf reply mode d path) (hpending : p.pending = b :: rest)
    (hanswer : ∀ c, (mode.plan b).lookup? = some c → (reply' c).answer = (reply c).answer) :
    (p.decide mode reply' b rest).IsOf reply mode d path := by
  constructor
  · exact h.readText_eq
  · have hedits := h.edits_eq
    rw [hpending] at hedits
    simp only [Progress.decide, List.map_append, List.map_cons, List.append_assoc,
      List.singleton_append, Edit.quiet_of_congr hanswer] at hedits ⊢
    exact hedits

theorem IsOf.quiet_transformation (h : p.IsOf reply mode d path) (hpending : p.pending = []) :
    p.transformation.quiet = (transform (.constant reply) mode p.content ()).1.quiet := by
  have hedits := h.edits_eq
  rw [hpending, List.map_nil, List.append_nil] at hedits
  rw [transform_eq (Lookup.isConstant_constant reply)]
  exact Transformation.quiet_ofEdits_congr hedits p.content

end Progress

namespace Worker

variable {w w' : Worker} {s s' : Shared} {call : Option Call}

/-- No step leads off the way, as long as the others leave the file alone. -/
theorem Step.isOnTrack (h : Step reply mode dryRun path w s w' s' call)
    (hw : w.IsOnTrack reply mode dryRun d path) (hcache : s.cache.IsTruthful reply)
    (hdisk : s.disk.Agrees d path) : w'.IsOnTrack reply mode dryRun d path := by
  have hread := Disk.readText_congr hdisk.frame_eq hdisk.file?_eq
  cases h with
  | readFailed hcause =>
    rw [hread] at hcause
    exact (resultAlone_of_error hcause).symm
  | read hcontent =>
    rw [hread] at hcontent
    exact Progress.isOf_start hcontent
  | decided hpending hlookup =>
    apply Progress.IsOf.decide hw hpending
    intro c _
    rfl
  | hit hpending hlookup hget =>
    apply Progress.IsOf.decide hw hpending
    intro c hc
    obtain rfl := Option.some.inj (hlookup.symm.trans hc)
    exact (hcache _ _ hget).symm
  | missed hpending hlookup hget => exact ⟨hw, hpending, hlookup⟩
  | failed =>
    obtain ⟨hp, hpending, hlookup⟩ := hw
    apply hp.decide hpending
    intro c hc
    rw [Option.some.inj (hlookup.symm.trans hc)]
  | found =>
    obtain ⟨hp, hpending, hlookup⟩ := hw
    exact ⟨hp, hpending, hlookup, rfl⟩
  | stored =>
    obtain ⟨hp, hpending, hlookup, hreply⟩ := hw
    apply hp.decide hpending
    intro c hc
    rw [← Option.some.inj (hlookup.symm.trans hc), hreply]
  | kept hpending hkeep =>
    exact (resultAlone_of_keep hw.readText_eq (hw.quiet_transformation hpending) hkeep).symm
  | changed hpending hwrite =>
    exact ⟨_, hw.readText_eq, hw.quiet_transformation hpending, hwrite⟩
  | written heq =>
    obtain ⟨content, hcontent, ht, hwrite⟩ := hw
    obtain ⟨place, -, hdone⟩ := hdisk.exists_write_eq hcontent (Text.encode _)
    rw [hdone] at heq
    rw [IsOnTrack, ← (Prod.mk.inj heq).1]
    exact (resultAlone_of_write hcontent ht hwrite).symm

/-- The disk changes when a worker is done, and only in the file's own place. -/
theorem Step.disk_eq (h : Step reply mode dryRun path w s w' s' call)
    (hw : w.IsOnTrack reply mode dryRun d path) (hdisk : s.disk.Agrees d path) :
    s'.disk = if w'.isFinished then s.disk.update (update? reply mode dryRun d path)
      else s.disk := by
  have hread := Disk.readText_congr hdisk.frame_eq hdisk.file?_eq
  cases h with
  | read | decided | hit | missed | failed | found | stored | changed => rfl
  | readFailed hcause =>
    rw [hread] at hcause
    rw [update?_of_error hcause]
    rfl
  | kept hpending hkeep =>
    rw [update?_of_keep hw.readText_eq (hw.quiet_transformation hpending) hkeep]
    rfl
  | written heq =>
    obtain ⟨content, hcontent, ht, hwrite⟩ := hw
    obtain ⟨place, hplace, hdone⟩ := hdisk.exists_write_eq hcontent (Text.encode _)
    rw [hdone] at heq
    rw [update?_of_write hplace hcontent ht hwrite, ← (Prod.mk.inj heq).2]
    rfl

end Worker

end SourceSwitch
