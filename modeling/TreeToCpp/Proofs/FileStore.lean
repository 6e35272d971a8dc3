import TreeToCpp.CommandLine.FileSystem
import TreeToCpp.Proofs.Outcome

/-!
# What a run may rely on when it uses files

A run needs three operations on files, and what it does depends on little of what stands behind
them. A `FileStore` is a file system with just that much said about it: a text that is read is the
content of the file, and a write either fails, and then there is no new state, or makes the text the
content of one file and leaves all other files as they are. Nothing is said about what else may stop
an operation, so links, permissions and a full device are allowed.

Files are told apart from the paths that lead to them. That way a text may be written over the very
document it was made from, whether or not the two paths are spelled alike.

The model that the tests run on, `FileSystem`, is such a store. There a file is its place. The one
thing to see is that the walk along a path asks of an entry only whether it is a directory; a write
replaces or adds an entry that is none, so every walk comes out where it came out before.

## Main definitions

* `FileView` — the files behind the paths, and what they hold
* `FileView.Overwritten` — all that a successful write changes
* `FileStore` — a view with the three operations and what is known about them
* `FileSystem.store` — the model as a store
-/

namespace TreeToCpp.CommandLine

/-! ## Stores -/

/-- The files that paths lead to, in each state. -/
structure FileView (σ : Type) where
  /-- What a file is known by. -/
  File : Type
  /-- The file that a path leads to. -/
  file? : σ → String → Option File
  /-- The bytes that a file holds, if it is there. -/
  content? : σ → File → Option ByteArray

variable {σ : Type}

namespace FileView

variable (view : FileView σ)

/-- The path leads to a file that holds the text. -/
def Holds (state : σ) (path text : String) : Prop :=
  ∃ file, view.file? state path = some file ∧ view.content? state file = some text.toUTF8

/-- The text has become the content of the file, and nothing else has changed. -/
structure OverwrittenAt (before : σ) (path text : String) (file : view.File)
    (after : σ) : Prop where
  leads : view.file? after path = some file
  content : view.content? after file = some text.toUTF8
  /-- A file that the path led to before is the one that is written. -/
  same : ∀ old, view.file? before path = some old → old = file
  others : ∀ other, other ≠ file → view.content? after other = view.content? before other
  /-- Paths lead where they led, except that some may now lead to the written file. -/
  paths : ∀ other, view.file? after other = view.file? before other ∨
    view.file? after other = some file

/-- The text has become the content of the file that the path leads to, and nothing else has
changed. -/
def Overwritten (before : σ) (path text : String) (after : σ) : Prop :=
  ∃ file, view.OverwrittenAt before path text file after

end FileView

/-- A file system with the operations of a run. -/
structure FileStore (σ : Type) extends FileView σ where
  /-- The size that is reported for a path. -/
  size : σ → String → Except OsError Nat
  /-- The text behind a path. -/
  read : σ → String → Except ReadFault String
  /-- The state after a text was written. There is none when the write fails. -/
  write : σ → String → String → Except OsError σ
  size_content : ∀ {state path file bytes reported}, file? state path = some file →
    content? state file = some bytes → size state path = .ok reported → reported = bytes.size
  read_holds : ∀ {state path text}, read state path = .ok text →
    toFileView.Holds state path text
  write_overwritten : ∀ {before path text after}, write before path text = .ok after →
    toFileView.Overwritten before path text after

namespace FileStore

/-- The operations of a run on a store. A failure changes nothing. -/
def disk (store : FileStore σ) : Disk (StateM σ) where
  size path := do return store.size (← get) path
  read path := do return store.read (← get) path
  write path text := do
    match store.write (← get) path text with
    | .ok after =>
      set after
      return .ok ()
    | .error error => return .error error

variable {store : FileStore σ} {before after : σ} {path text : String}

end FileStore

/-! ## Bytes -/

theorem Content.size_data (content : Content) : content.data.size = content.size := by
  cases content with
  | bytes data => rfl
  | hole size =>
    rw [Content.data, Content.size]
    induction size with
    | zero => rfl
    | succ size ih => rw [Nat.fold_succ, ByteArray.size_push, ih]

theorem Content.data_of_text? {content : Content} {text : String}
    (h : content.text? = some text) : content.data = text.toUTF8 := by
  rw [Content.text?, String.fromUTF8?] at h
  split at h
  · cases h
    rfl
  · cases h

namespace FileSystem

variable {fs fs' : FileSystem} {place parent : Place} {entry : Entry} {component path text : String}

/-! ## Entries -/

theorem lookup_filter_ne {entries : List (Place × Entry)} (h : place ≠ parent) :
    (entries.filter (·.1 != parent)).lookup place = entries.lookup place := by
  induction entries with
  | nil => rfl
  | cons first rest ih =>
    obtain ⟨there, found⟩ := first
    by_cases hthere : there = parent
    · subst hthere
      simpa [List.lookup_cons, beq_false_of_ne h] using ih
    · simp [hthere, List.lookup_cons, ih]

theorem ne_nil_of_not_directory (h : fs.entry? place ≠ some .directory) : place ≠ [] := by
  rintro rfl
  exact h rfl

theorem entry?_put_self (h : place ≠ []) : entry? (fs.put place entry) place = some entry := by
  simp [put, entry?, h]

theorem entry?_put_of_ne (h : place ≠ parent) :
    entry? (fs.put parent entry) place = fs.entry? place := by
  simp [put, entry?, List.lookup_cons, beq_false_of_ne h, lookup_filter_ne h]

/-! ## Walks -/

/-- The place where one component leads, from a directory. -/
def next (place : Place) (component : String) : Place :=
  if component = "." then place
  else if component = ".." then place.dropLast
  else place ++ [component]

theorem step_eq_ok_iff {place' : Place} :
    fs.step place component = .ok place' ↔
      fs.entry? place = some .directory ∧ next place component = place' := by
  rw [step]
  split <;> simp_all [next]

/-- The place where the walk along a path ends. -/
def walk (fs : FileSystem) (path : String) : Except OsError Place :=
  (components path).foldlM fs.step (fs.origin path)

/-- A walk depends on nothing but which places are directories. -/
theorem foldlM_step_congr (h : ∀ place, fs'.entry? place = some .directory ↔
      fs.entry? place = some .directory) {parts : List String} {start stop : Place} :
    parts.foldlM fs'.step start = .ok stop ↔ parts.foldlM fs.step start = .ok stop := by
  induction parts generalizing start with
  | nil => rfl
  | cons component rest ih =>
    simp only [List.foldlM_cons, bind_eq_ok_iff, step_eq_ok_iff, h, ih]

/-! ## Files -/

/-- The place of the file that a path leads to. -/
def file? (fs : FileSystem) (path : String) : Option Place :=
  match fs.walk path with
  | .error _ => none
  | .ok place =>
    match fs.entry? place with
    | some (.file _) => if namesDirectory path then none else some place
    | _ => none

/-- The bytes of the file at a place. -/
def content? (fs : FileSystem) (place : Place) : Option ByteArray :=
  match fs.entry? place with
  | some (.file content) => some content.data
  | _ => none

theorem file?_eq_some_iff :
    fs.file? path = some place ↔ fs.walk path = .ok place ∧ namesDirectory path = false ∧
      ∃ content, fs.entry? place = some (.file content) := by
  rw [file?]
  constructor
  · intro h
    split at h
    · cases h
    · next stop hwalk =>
      split at h
      · next content hentry =>
        split at h
        · cases h
        · next hname =>
          cases h
          exact ⟨hwalk, by simpa using hname, content, hentry⟩
      · cases h
  · rintro ⟨hwalk, hname, content, hentry⟩
    simp [hwalk, hname, hentry]

theorem locate_eq_file_iff {content : Content} :
    fs.locate path = .ok (.file content) ↔
      ∃ place, fs.file? path = some place ∧ fs.entry? place = some (.file content) := by
  simp only [locate, bind_eq_ok_iff, file?_eq_some_iff]
  constructor
  · rintro ⟨place, hwalk, hlocate⟩
    refine ⟨place, ?_⟩
    split at hlocate
    · cases hlocate
    · next found hentry =>
      split at hlocate
      · cases hlocate
      · next hname =>
        cases hlocate
        exact ⟨⟨hwalk, by simpa using hname, content, hentry⟩, hentry⟩
    · cases hlocate
  · rintro ⟨place, ⟨hwalk, hname, _⟩, hentry⟩
    exact ⟨place, hwalk, by simp [hentry, hname, pure, Except.pure]⟩

/-! ## The operations -/

theorem read_eq_ok_iff :
    fs.read path = .ok text ↔
      ∃ content, fs.locate path = .ok (.file content) ∧ content.text? = some text := by
  rw [read]
  split <;> try simp_all
  split <;> simp_all

/-- What may be written is where the walk ends, and no directory. -/
theorem target_eq_ok (h : fs.target path = .ok place) :
    fs.walk path = .ok place ∧ namesDirectory path = false ∧
      fs.entry? place ≠ some .directory := by
  simp only [target, bind_eq_ok_iff] at h
  obtain ⟨parent, hparent, stop, hstop, h⟩ := h
  split at h
  · cases h
  · next hform =>
    rw [Bool.or_eq_true, not_or] at hform
    split at h
    · cases h
    · next hentry =>
      cases h
      refine ⟨?_, by simpa using hform.1, hentry⟩
      -- A path without components counts as a dot, and has just been refused.
      have hne : components path ≠ [] := by
        intro hnil
        simp [hnil] at hform
      rw [walk, ← List.dropLast_concat_getLast hne, List.foldlM_append, bind_eq_ok_iff]
      refine ⟨parent, hparent, ?_⟩
      rw [List.getLastD_eq_getLast?, List.getLast?_eq_some_getLast hne] at hstop
      simpa using hstop

theorem write_eq_ok (h : fs.write path text = .ok fs') :
    ∃ place, fs.target path = .ok place ∧
      fs.put place (.file (.bytes text.toUTF8)) = fs' := by
  simpa [write, map_eq_ok_iff] using h

/-! ## What a write changes -/

section Put

variable {content : Content} {other : Place}

theorem entry?_put_directory_iff (h : fs.entry? place ≠ some .directory) :
    entry? (fs.put place (.file content)) other = some .directory ↔
      fs.entry? other = some .directory := by
  by_cases hother : other = place
  · subst hother
    simp [entry?_put_self (ne_nil_of_not_directory h), h]
  · rw [entry?_put_of_ne hother]

/-- A file where no directory was leaves every walk as it was. -/
theorem walk_put_eq_ok_iff (h : fs.entry? place ≠ some .directory) :
    (fs.put place (.file content)).walk path = .ok other ↔ fs.walk path = .ok other :=
  foldlM_step_congr fun _ => entry?_put_directory_iff h

theorem content?_put_of_ne (h : other ≠ place) :
    (fs.put place entry).content? other = fs.content? other := by
  rw [content?, content?, entry?_put_of_ne h]

theorem file?_put_self_iff (h : fs.entry? place ≠ some .directory) :
    (fs.put place (.file content)).file? path = some place ↔
      fs.walk path = .ok place ∧ namesDirectory path = false := by
  simp [file?_eq_some_iff, walk_put_eq_ok_iff h, entry?_put_self (ne_nil_of_not_directory h)]

theorem file?_put_iff_of_ne (h : fs.entry? place ≠ some .directory) (hother : other ≠ place) :
    (fs.put place (.file content)).file? path = some other ↔ fs.file? path = some other := by
  simp only [file?_eq_some_iff, walk_put_eq_ok_iff h, entry?_put_of_ne hother]

/-- A path that does not lead to the new file leads where it led before. -/
theorem file?_put (h : fs.entry? place ≠ some .directory) :
    (fs.put place (.file content)).file? path = fs.file? path ∨
      (fs.put place (.file content)).file? path = some place := by
  by_cases hplace : (fs.put place (.file content)).file? path = some place
  · exact .inr hplace
  · refine .inl (Option.ext fun other => ?_)
    by_cases hother : other = place
    · subst hother
      have hbefore : fs.file? path ≠ some other := by
        intro hfile
        obtain ⟨hwalk, hname, _⟩ := file?_eq_some_iff.1 hfile
        exact hplace ((file?_put_self_iff h).2 ⟨hwalk, hname⟩)
      simp [hplace, hbefore]
    · exact file?_put_iff_of_ne h hother

end Put

/-! ## The model as a store -/

/-- The files of the model. A file is known by its place. -/
def view : FileView FileSystem where
  File := Place
  file? := file?
  content? := content?

theorem holds_of_read (h : fs.read path = .ok text) : view.Holds fs path text := by
  obtain ⟨content, hlocate, htext⟩ := read_eq_ok_iff.1 h
  obtain ⟨place, hfile, hentry⟩ := locate_eq_file_iff.1 hlocate
  refine ⟨place, hfile, ?_⟩
  simp [view, content?, hentry, Content.data_of_text? htext]

theorem size_eq_of_content? {bytes : ByteArray} {reported : Nat}
    (hfile : fs.file? path = some place) (hcontent : fs.content? place = some bytes)
    (hsize : fs.size path = .ok reported) : reported = bytes.size := by
  obtain ⟨_, _, content, hentry⟩ := file?_eq_some_iff.1 hfile
  have hlocate : fs.locate path = .ok (.file content) :=
    locate_eq_file_iff.2 ⟨place, hfile, hentry⟩
  have hbytes : content.data = bytes := by simpa [content?, hentry] using hcontent
  have hreported : content.size = reported := by
    simpa [size, hlocate, bind, Except.bind, pure_eq_ok_iff] using hsize
  rw [← hreported, ← hbytes, content.size_data]

theorem overwritten_of_write (h : fs.write path text = .ok fs') :
    view.Overwritten fs path text fs' := by
  obtain ⟨place, htarget, rfl⟩ := write_eq_ok h
  obtain ⟨hwalk, hname, hentry⟩ := target_eq_ok htarget
  refine ⟨place, ?_, ?_, ?_, fun _ => content?_put_of_ne, fun _ => file?_put hentry⟩
  · exact (file?_put_self_iff hentry).2 ⟨hwalk, hname⟩
  · simp [view, content?, entry?_put_self (ne_nil_of_not_directory hentry), Content.data]
  · intro old hold
    obtain ⟨hwalk', _, _⟩ := file?_eq_some_iff.1 hold
    exact Except.ok.inj (hwalk'.symm.trans hwalk)

/-- The model as a store. -/
def store : FileStore FileSystem where
  toFileView := view
  size := size
  read := read
  write := write
  size_content := size_eq_of_content?
  read_holds := holds_of_read
  write_overwritten := overwritten_of_write

/-- A run on the model and a run on the store use the same operations. -/
theorem store_disk : store.disk = disk := by
  rw [FileStore.disk, disk]
  congr 1
  funext path text
  congr 1
  funext fs
  have hwrite : store.write fs path text = fs.write path text := rfl
  rw [hwrite]
  cases fs.write path text with
  | ok after => rfl
  | error error => rfl

end FileSystem

end TreeToCpp.CommandLine
