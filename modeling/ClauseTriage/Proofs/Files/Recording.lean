import Mathlib
import ClauseTriage.FileSystem

/-!
# Records of changes

A recorded file system answers as the one it records, and lists the changes that were carried out:
directories that were made and files that were written. What a computation may change is stated of
that list, together with the answer.
-/
namespace ClauseTriage

/-- A change to files or directories. -/
inductive Change where
  | directory (path : String)
  | file (path text : String)
  deriving DecidableEq, Repr

/-- The file that a change writes, with its text. -/
def Change.file? : Change → Option (String × String)
  | directory _ => none
  | file path text => some (path, text)

/-- A state with the changes that were carried out on the way to it. -/
structure Recorded (σ : Type) where
  state : σ
  changes : List Change

namespace FileSystem

variable {σ α β : Type}

/-- A request that is recorded as a change, unless it is refused. -/
def recordingChange (change : Change) (request : StateM σ (Except SystemError Unit)) :
    StateM (Recorded σ) (Except SystemError Unit) := fun w =>
  match request w.state with
  | (.ok (), state) => (.ok (), ⟨state, w.changes ++ [change]⟩)
  | (.error e, state) => (.error e, ⟨state, w.changes⟩)

/-- A file system together with a record of its changes. -/
def recording (fs : FileSystem (StateM σ)) : FileSystem (StateM (Recorded σ)) where
  read path := fun w => ((fs.read path w.state).1, ⟨(fs.read path w.state).2, w.changes⟩)
  write path text := recordingChange (.file path text) (fs.write path text)
  makeDirectory path := recordingChange (.directory path) (fs.makeDirectory path)

/-- The first computation does what the second does, and records changes that are related to the
result. -/
def Records (post : α → List Change → Prop) (x : StateM (Recorded σ) α) (y : StateM σ α) : Prop :=
  ∀ w, ∃ added, x w = ((y w.state).1, ⟨(y w.state).2, w.changes ++ added⟩) ∧
    post (y w.state).1 added

namespace Records

variable {post : β → List Change → Prop} {first : α → List Change → Prop}
  {x : StateM (Recorded σ) α} {y : StateM σ α}

theorem pure {b : β} (h : post b []) :
    Records post (Pure.pure b : StateM (Recorded σ) β) (Pure.pure b) := by
  intro w
  exact ⟨[], by rw [List.append_nil]; rfl, h⟩

/-- The changes of two computations in a row are those of the first, and then those of the
second. -/
theorem bind {f : α → StateM (Recorded σ) β} {g : α → StateM σ β} (hx : Records first x y)
    (hf : ∀ a, Records (fun b later => ∀ earlier, first a earlier → post b (earlier ++ later))
      (f a) (g a)) :
    Records post (x >>= f) (y >>= g) := by
  intro w
  obtain ⟨earlier, hearlier, hfirst⟩ := hx w
  obtain ⟨later, hlater, hpost⟩ := hf (y w.state).1 ⟨(y w.state).2, w.changes ++ earlier⟩
  refine ⟨earlier ++ later, ?_, hpost earlier hfirst⟩
  calc (x >>= f) w
    _ = f (x w).1 (x w).2 := rfl
    _ = _ := by rw [hearlier, hlater, List.append_assoc]; rfl

theorem mono {weaker : α → List Change → Prop} (hx : Records first x y)
    (h : ∀ a added, first a added → weaker a added) : Records weaker x y := by
  intro w
  obtain ⟨added, hadded, hfirst⟩ := hx w
  exact ⟨added, hadded, h _ _ hfirst⟩

end Records

variable (fs : FileSystem (StateM σ))

/-- A request is recorded just when it is carried out. -/
theorem recordingChange_records (change : Change) (request : StateM σ (Except SystemError Unit)) :
    Records (fun answer added => added = if answer = .ok () then [change] else [])
      (recordingChange change request) request := by
  intro w
  rw [recordingChange]
  obtain ⟨⟨e⟩ | ⟨⟨⟩⟩, state⟩ := request w.state
  · exact ⟨[], by rw [List.append_nil], rfl⟩
  · exact ⟨[change], rfl, rfl⟩

theorem recording_read_records (path : String) :
    Records (fun _ added => added = []) (fs.recording.read path) (fs.read path) := by
  intro w
  exact ⟨[], by rw [List.append_nil]; rfl, rfl⟩

/-! ## Making directories -/

/-- All changes make one of some directories. -/
def MakesOnly (paths : List String) (added : List Change) : Prop :=
  ∀ change ∈ added, ∃ path ∈ paths, change = .directory path

theorem MakesOnly.append {paths : List String} {earlier later : List Change}
    (hearlier : MakesOnly paths earlier) (hlater : MakesOnly paths later) :
    MakesOnly paths (earlier ++ later) :=
  List.forall_mem_append.2 ⟨hearlier, hlater⟩

theorem MakesOnly.mono {paths more : List String} {added : List Change}
    (h : MakesOnly paths added) (hsubset : paths ⊆ more) : MakesOnly more added := by
  intro change hchange
  obtain ⟨path, hpath, hmade⟩ := h change hchange
  exact ⟨path, hsubset hpath, hmade⟩

/-- No file is written. -/
theorem MakesOnly.filterMap_file? {paths : List String} {added : List Change}
    (h : MakesOnly paths added) : added.filterMap Change.file? = [] := by
  simp only [List.filterMap_eq_nil_iff]
  intro change hchange
  obtain ⟨path, -, rfl⟩ := h change hchange
  rfl

theorem MakesOnly.nil {paths : List String} : MakesOnly paths [] := List.forall_mem_nil _

theorem Records.bind_makesOnly {paths : List String} {x : StateM (Recorded σ) α} {y : StateM σ α}
    {f : α → StateM (Recorded σ) β} {g : α → StateM σ β}
    (hx : Records (fun _ => MakesOnly paths) x y)
    (hf : ∀ a, Records (fun _ => MakesOnly paths) (f a) (g a)) :
    Records (fun _ => MakesOnly paths) (x >>= f) (y >>= g) :=
  hx.bind fun a => (hf a).mono fun _ _ hlater _ hearlier => hearlier.append hlater

theorem isDirectory_records (paths : List String) (path : String) :
    Records (fun _ => MakesOnly paths) (fs.recording.isDirectory path) (fs.isDirectory path) := by
  unfold isDirectory
  have hread : Records (fun _ => MakesOnly paths) (fs.recording.read path) (fs.read path) :=
    (fs.recording_read_records path).mono fun _ _ hnone => hnone ▸ .nil
  apply hread.bind_makesOnly
  intro answer
  split
  · exact .pure .nil
  · exact .pure .nil

theorem ensureDirectory_records (path : String) :
    Records (fun _ => MakesOnly [path]) (fs.recording.ensureDirectory path)
      (fs.ensureDirectory path) := by
  unfold ensureDirectory
  have hmake : Records (fun _ => MakesOnly [path]) (fs.recording.makeDirectory path)
      (fs.makeDirectory path) := by
    apply (recordingChange_records (.directory path) (fs.makeDirectory path)).mono
    rintro answer added rfl
    split
    · exact fun change hchange => ⟨path, List.mem_singleton_self path, List.mem_singleton.1 hchange⟩
    · exact .nil
  apply hmake.bind_makesOnly
  intro answer
  split
  · exact (fs.isDirectory_records [path] path).bind_makesOnly fun _ => .pure .nil
  · exact .pure .nil

/-- The recursion goes outwards; every directory that it asks for is in the list. -/
theorem ensureAround_records (paths : List String) :
    Records (fun _ => MakesOnly paths) (fs.recording.ensureAround paths)
      (fs.ensureAround paths) := by
  induction paths with
  | nil => exact .pure .nil
  | cons path outer ih =>
    have hmake : Records (fun _ => MakesOnly (path :: outer)) (fs.recording.ensureDirectory path)
        (fs.ensureDirectory path) :=
      (fs.ensureDirectory_records path).mono fun _ _ h => h.mono (by simp)
    have houter : Records (fun _ => MakesOnly (path :: outer)) (fs.recording.ensureAround outer)
        (fs.ensureAround outer) := ih.mono fun _ _ h => h.mono (List.subset_cons_self _ _)
    rw [ensureAround, ensureAround]
    apply hmake.bind_makesOnly
    intro answer
    split
    · apply houter.bind_makesOnly
      intro around
      split
      · exact .pure .nil
      · exact hmake
    · exact .pure .nil

/-- Making a directory changes nothing but the directory and those around it. -/
theorem makeDirectories_records (path : String) :
    Records (fun _ => MakesOnly (Path.ancestors path)) (fs.recording.makeDirectories path)
      (fs.makeDirectories path) :=
  fs.ensureAround_records (Path.ancestors path)

end FileSystem

end ClauseTriage
