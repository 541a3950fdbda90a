import G2mirror.Library.Machine
import G2mirror.Server
import G2mirror.WrapOptions
import Mathlib.Data.List.Induction

/-!
# The runtime directory

`paths.rs`, and who uses it. Every session keeps a socket in the directory, named after its process
and its working directory; the server and the attach client find the sessions there, and a server
that starts removes the sockets that sessions which were killed have left behind. Nothing
locks the directory: what a cleanup has found out about a file may have changed before it
removes the file.
-/

namespace G2mirror

/-- `STALE_SOCKET_AGE`, in nanoseconds. -/
def staleSocketAge : ℕ := 60 * 60 * 10 ^ 9

/-- Whether `sanitize_cwd` keeps a character. -/
def isNameChar (c : Char) : Bool := c.isAlphanum || c = '-' || c = '_' || c = '.'

/-- `sanitize_cwd`. What it cuts off the front is counted in bytes, each of them a character. -/
def sanitizeCwd (cwd : Bytes) : List Char :=
  let sanitized := (fromUtf8Lossy cwd).toList.map fun c => if isNameChar c then c else '_'
  if 60 < sanitized.length then sanitized.drop (sanitized.length - 60) else sanitized

/-- `paths::socket_name`. -/
def socketName (pid : ℕ) (cwd : Bytes) : String :=
  String.ofList ((toString pid).toList ++ '-' :: sanitizeCwd cwd)

/-- What sending no signal to a process gives. -/
inductive TestKill
  | ok
  /-- The process belongs to someone else. -/
  | perm
  | srch
  deriving DecidableEq

/-- `paths::pid_exists`. -/
def pidExists (testKill : ℕ → TestKill) (pid : ℕ) : Bool :=
  if 2 ^ 31 ≤ pid ∨ pid = 0 then false
  else
    match testKill pid with
    | .ok => true
    | .perm => true
    | .srch => false

section Names

variable {pid : ℕ} {cwd : Bytes}

theorem sanitizeCwd_chars (cwd : Bytes) : ∀ c ∈ sanitizeCwd cwd, isNameChar c = true := by
  have hmapped : ∀ c ∈ (fromUtf8Lossy cwd).toList.map fun c => if isNameChar c then c else '_',
      isNameChar c = true := by
    intro c hc
    obtain ⟨original, -, rfl⟩ := List.mem_map.mp hc
    split
    · assumption
    · decide
  intro c hc
  unfold sanitizeCwd at hc
  dsimp only at hc
  split at hc
  · exact hmapped c (List.mem_of_mem_drop hc)
  · exact hmapped c hc

theorem sanitizeCwd_length (cwd : Bytes) : (sanitizeCwd cwd).length ≤ 60 := by
  unfold sanitizeCwd
  dsimp only
  split
  · rw [List.length_drop]
    omega
  · omega

theorem toString_isDigit (n : ℕ) : ∀ c ∈ (toString n).toList, c.isDigit = true := by
  intro c hc
  have hdigits : (toString n).toList = Nat.toDigits 10 n := Nat.toList_repr
  rw [hdigits] at hc
  exact Nat.isDigit_of_mem_toDigits (by decide) (by decide) hc

/-- The process is read back from a socket's name. -/
theorem socketPid_socketName (hpid : pid < 2 ^ 32) (cwd : Bytes) :
    socketPid (socketName pid cwd) = some pid := by
  have hdigits : ∀ c ∈ (toString pid).toList, decide (c ≠ '-') = true := by
    intro c hc
    apply decide_eq_true
    rintro rfl
    exact absurd (toString_isDigit pid '-' hc) (by decide)
  unfold socketPid socketName
  rw [String.toList_ofList, List.takeWhile_append_of_pos hdigits,
    List.takeWhile_cons_of_neg (by decide), List.append_nil]
  apply parseUnsigned_toString
  omega

theorem socketName_chars (pid : ℕ) (cwd : Bytes) :
    ∀ c ∈ (socketName pid cwd).toList, isNameChar c = true := by
  intro c hc
  unfold socketName at hc
  rw [String.toList_ofList, List.mem_append, List.mem_cons] at hc
  rcases hc with hdigit | rfl | hrest
  · unfold isNameChar Char.isAlphanum
    rw [toString_isDigit pid c hdigit, Bool.or_true, Bool.true_or, Bool.true_or, Bool.true_or]
  · decide
  · exact sanitizeCwd_chars cwd c hrest

/-- A socket's name is short, whatever the working directory. -/
theorem socketName_length (hpid : pid < 2 ^ 32) (cwd : Bytes) :
    (socketName pid cwd).toList.length ≤ 71 := by
  have hdigits : (toString pid).toList.length ≤ 10 := by
    have hlength := (Nat.length_repr_le_iff (n := pid) (k := 10) (by decide)).mpr (by omega)
    rwa [← String.length_toList] at hlength
  have hrest := sanitizeCwd_length cwd
  unfold socketName
  rw [String.toList_ofList, List.length_append, List.length_cons]
  omega

/-- A socket's name is valid. -/
theorem isValidSocketName_socketName (hpid : pid < 2 ^ 32) (cwd : Bytes) :
    isValidSocketName (socketName pid cwd) = true := by
  have hchars : (socketName pid cwd).toList.all isNameChar = true :=
    List.all_eq_true.mpr (socketName_chars pid cwd)
  have hnonempty : (socketName pid cwd).isEmpty = false := by
    unfold socketName
    rw [Bool.eq_false_iff]
    intro hempty
    have hnil := congrArg String.toList (String.isEmpty_iff.mp hempty)
    rw [String.toList_ofList] at hnil
    simp at hnil
  unfold isValidSocketName
  rw [socketPid_socketName hpid, hnonempty]
  unfold isNameChar at hchars
  rw [hchars]
  rfl

end Names

example : socketName 1234 (utf8 "/Users/jim/my project/x") = "1234-_Users_jim_my_project_x" := by
  decide +kernel

theorem not_isWhitespace_of_isNameChar {c : Char} (h : isNameChar c = true) :
    isWhitespace c = false := by
  have hrange : 0x2d ≤ c.toNat ∧ c.toNat ≤ 0x7a := by
    unfold isNameChar Char.isAlphanum Char.isAlpha Char.isUpper Char.isLower Char.isDigit at h
    simp only [Bool.or_eq_true, Bool.and_eq_true, decide_eq_true_eq, UInt32.le_iff_toNat_le,
      ge_iff_le] at h
    have hnat : c.val.toNat = c.toNat := rfl
    rcases h with (((h | h) | rfl) | rfl) | rfl
    · simp only [hnat] at h
      rcases h with ⟨hlow, hhigh⟩ | ⟨hlow, hhigh⟩
      · exact ⟨Nat.le_trans (by decide) hlow, Nat.le_trans hhigh (by decide)⟩
      · exact ⟨Nat.le_trans (by decide) hlow, Nat.le_trans hhigh (by decide)⟩
    · exact ⟨Nat.le_trans (by decide) h.1, Nat.le_trans h.2 (by decide)⟩
    · decide
    · decide
    · decide
  unfold isWhitespace
  simp only [Bool.or_eq_false_iff, Bool.and_eq_false_iff, decide_eq_false_iff_not]
  omega

/-- A line without blanks is what is left of it when it is trimmed. -/
theorem trim_line {line : List Char} (hline : ∀ c ∈ line, isWhitespace c = false) :
    trim (line ++ ['\n']) = line := by
  cases line with
  | nil => decide
  | cons first rest =>
    have hfirst : isWhitespace first = false := hline first List.mem_cons_self
    have hback : ∀ c ∈ (first :: rest).reverse, isWhitespace c = false :=
      fun c hc => hline c (List.mem_reverse.mp hc)
    unfold trim
    rw [List.cons_append, List.dropWhile_cons_of_neg (by simp [hfirst]), ← List.cons_append,
      List.reverse_append, List.reverse_singleton, List.singleton_append,
      List.dropWhile_cons_of_pos (by decide), dropWhile_isWhitespace hback, List.reverse_reverse]

/-- What the server's launch reads from `g2mirror --detached` is the name of the new session. -/
theorem launchedSocket_socketName {pid : ℕ} (hpid : pid < 2 ^ 32) (cwd : Bytes) (crates : Crates)
    (stderr : Bytes) :
    launchedSocket crates ⟨true, utf8 (socketName pid cwd ++ "\n"), stderr⟩ =
      .ok (socketName pid cwd) := by
  have htrim : trim (socketName pid cwd ++ "\n").toList = (socketName pid cwd).toList := by
    rw [String.toList_append]
    apply trim_line
    intro c hc
    exact not_isWhitespace_of_isNameChar (socketName_chars pid cwd c hc)
  unfold launchedSocket
  refine (if_neg Bool.false_ne_true).trans ?_
  dsimp only
  rw [fromUtf8Lossy_utf8, htrim, String.ofList_toList]
  exact if_pos (isValidSocketName_socketName hpid cwd)

inductive FileKind
  | socket
  | file
  | directory
  deriving DecidableEq

structure DirEntry where
  name : String
  kind : FileKind
  modified : ℕ
  deriving DecidableEq

/-- A process, as far as the directory goes. -/
structure DirProcess where
  /-- It belongs to the user. -/
  ours : Bool
  /-- The `ControlListener` that it holds: the name of its socket. -/
  listener : Option String

/-- `cleanup_stale_sockets` on its way through the directory. -/
structure Cleanup where
  /-- The time at which it began. -/
  began : ℕ
  /-- The socket that it has found to be old. -/
  aged : Option String
  /-- The file that it is about to remove. -/
  doomed : Option String
  /-- What it has removed, newest first. -/
  removed : List String

/-- The runtime directory, and who has to do with it. -/
structure RuntimeDir where
  /-- The system's clock. -/
  now : ℕ
  entries : List DirEntry
  processes : ℕ → Option DirProcess
  cleanups : List Cleanup

namespace RuntimeDir

/-- Nothing has happened yet. -/
def empty : RuntimeDir := ⟨0, [], fun _ => none, []⟩

/-- `symlink_metadata`. -/
def entry (d : RuntimeDir) (name : String) : Option DirEntry :=
  d.entries.find? fun e => e.name = name

/-- `test_kill_process`. -/
def testKill (d : RuntimeDir) (pid : ℕ) : TestKill :=
  match d.processes pid with
  | none => .srch
  | some p => if p.ours then .ok else .perm

/-- What a server finds in the directory. -/
def surroundings (d : RuntimeDir) : Surroundings :=
  { noWorld with entries := d.entries.map DirEntry.name, pidExists := pidExists d.testKill }

/-- `enclosing_session`, for a process with this socket in its environment. -/
def enclosingSession (d : RuntimeDir) (session : String) : Option String :=
  if (d.entry session).any fun e => e.kind = .socket then some session else none

/-- `remove_file`, which leaves directories alone. -/
def removeFile (d : RuntimeDir) (name : String) : Option RuntimeDir :=
  match d.entry name with
  | none => none
  | some e =>
    if e.kind = .directory then none
    else some { d with entries := d.entries.filter fun e => e.name ≠ name }

/-- A file of this name is made. -/
def createFile (d : RuntimeDir) (name : String) (kind : FileKind) (modified : ℕ) :
    Option RuntimeDir :=
  if d.entry name = none then some { d with entries := ⟨name, kind, modified⟩ :: d.entries }
  else none

/-- A process begins, ends, or changes what it listens at. -/
def setProcess (d : RuntimeDir) (pid : ℕ) (p : Option DirProcess) : RuntimeDir :=
  { d with processes := fun other => if other = pid then p else d.processes other }

def setCleanup (d : RuntimeDir) (i : ℕ) (c : Cleanup) : RuntimeDir :=
  { d with cleanups := d.cleanups.set i c }

/-- `ControlListener::bind` of a process. It fails if there is something that it cannot remove. -/
def bind (d : RuntimeDir) (pid : ℕ) (p : DirProcess) (cwd : Bytes) : RuntimeDir :=
  let name := socketName pid cwd
  let d := (d.removeFile name).getD d
  match d.createFile name .socket d.now with
  | none => d
  | some d => d.setProcess pid (some { p with listener := some name })

/-- Whether a cleanup that began then takes what has this name for an old socket. -/
def isAged (d : RuntimeDir) (began : ℕ) (name : String) : Bool :=
  (socketPid name).isSome &&
    (d.entry name).any fun e => e.kind = .socket && staleSocketAge < began - e.modified

/-- Whether a socket of this name has a process. -/
def isOwned (d : RuntimeDir) (name : String) : Bool :=
  (socketPid name).any (pidExists d.testKill)

/-- What may happen. -/
inductive Action
  /-- The clock goes on, or is set. -/
  | clock (now : ℕ)
  /-- A process begins. -/
  | spawn (pid : ℕ) (ours : Bool)
  /-- It becomes the wrapper of a session. -/
  | bind (pid : ℕ) (cwd : Bytes)
  /-- Its listener is dropped. -/
  | drop (pid : ℕ)
  /-- It ends, or is killed. -/
  | exit (pid : ℕ)
  /-- Someone puts something else into the directory. -/
  | create (name : String) (kind : FileKind) (modified : ℕ)
  /-- A server starts, and with it a cleanup. -/
  | cleanup
  /-- A cleanup looks at what has this name. -/
  | examine (i : ℕ) (name : String)
  /-- It looks for the process of the socket that it has found to be old. -/
  | probe (i : ℕ)
  /-- It removes the socket, for which it has found no process. -/
  | remove (i : ℕ)

/-- One step of whoever's turn it is. -/
def step (d : RuntimeDir) : Action → Option RuntimeDir
  | .clock now => some { d with now := now }
  | .spawn pid ours =>
    if 0 < pid ∧ pid < 2 ^ 31 ∧ (d.processes pid).isNone then
      some (d.setProcess pid (some ⟨ours, none⟩))
    else none
  | .bind pid cwd =>
    match d.processes pid with
    | none => none
    | some p => if p.listener = none then some (d.bind pid p cwd) else none
  | .drop pid =>
    match d.processes pid with
    | none => none
    | some p =>
      match p.listener with
      | none => none
      | some name =>
        some (((d.removeFile name).getD d).setProcess pid (some { p with listener := none }))
  | .exit pid => if (d.processes pid).isSome then some (d.setProcess pid none) else none
  | .create name kind modified => d.createFile name kind modified
  | .cleanup => some { d with cleanups := d.cleanups ++ [⟨d.now, none, none, []⟩] }
  | .examine i name =>
    match d.cleanups[i]? with
    | none => none
    | some c =>
      if c.aged = none ∧ c.doomed = none ∧ d.isAged c.began name then
        some (d.setCleanup i { c with aged := some name })
      else some d
  | .probe i =>
    match d.cleanups[i]? with
    | none => none
    | some c =>
      match c.aged with
      | none => none
      | some name =>
        let doomed := if d.isOwned name then none else some name
        some (d.setCleanup i { c with aged := none, doomed := doomed })
  | .remove i =>
    match d.cleanups[i]? with
    | none => none
    | some c =>
      match c.doomed with
      | none => none
      | some name =>
        match d.removeFile name with
        | none => some (d.setCleanup i { c with doomed := none })
        | some d =>
          some (d.setCleanup i { c with doomed := none, removed := name :: c.removed })

variable {d d' : RuntimeDir} {pid : ℕ} {name : String}

section Files

theorem entry_filter (d : RuntimeDir) (name other : String) :
    { d with entries := d.entries.filter fun e => e.name ≠ name }.entry other =
      if other = name then none else d.entry other := by
  unfold entry
  dsimp only
  rw [List.find?_filter]
  split
  · rename_i heq
    rw [heq, List.find?_eq_none]
    intro e _
    simp
  · rename_i hne
    congr 1
    funext e
    by_cases he : e.name = other
    · have hother : e.name ≠ name := fun hname => hne (he.symm.trans hname)
      simp [he, hne]
    · simp [he]

/-- A file that is removed is gone, and nothing else is. -/
theorem removeFile_eq_some (h : d.removeFile name = some d') :
    (∃ e, d.entry name = some e ∧ e.kind ≠ .directory) ∧
      d' = { d with entries := d.entries.filter fun e => e.name ≠ name } := by
  unfold removeFile at h
  split at h
  · cases h
  · rename_i e he
    split at h
    · cases h
    · rename_i hkind
      exact ⟨⟨e, he, hkind⟩, (Option.some.inj h).symm⟩

theorem removeFile_of_entry {e : DirEntry} (he : d.entry name = some e)
    (hkind : e.kind ≠ .directory) : d.removeFile name =
      some { d with entries := d.entries.filter fun e => e.name ≠ name } := by
  unfold removeFile
  rw [he]
  exact if_neg hkind

/-- What is not in the directory is not found there. -/
theorem notMem_liveSessionSockets (h : d.entry name = none) :
    name ∉ liveSessionSockets d.surroundings := by
  intro hmem
  obtain ⟨e, he, hname⟩ := List.mem_map.mp (List.mem_of_mem_filter hmem)
  have hother := List.find?_eq_none.mp h e he
  exact hother (decide_eq_true hname)

theorem entry_removeFile (h : d.removeFile name = some d') (other : String) :
    d'.entry other = if other = name then none else d.entry other := by
  obtain ⟨-, rfl⟩ := removeFile_eq_some h
  exact entry_filter d name other

theorem entry_createFile {kind : FileKind} {modified : ℕ}
    (h : d.createFile name kind modified = some d') (other : String) :
    d'.entry other = if other = name then some ⟨name, kind, modified⟩ else d.entry other := by
  obtain ⟨-, heq⟩ := Option.ite_none_right_eq_some.mp h
  obtain rfl := Option.some.inj heq
  unfold entry
  dsimp only
  rw [List.find?_cons]
  by_cases hother : name = other
  · simp [hother]
  · simp [hother, Ne.symm hother]

/-- Files that another name has are not touched. -/
theorem entry_getD_removeFile {other : String} (hother : other ≠ name) :
    ((d.removeFile name).getD d).entry other = d.entry other := by
  cases hremoved : d.removeFile name with
  | none => rfl
  | some d' =>
    rw [Option.getD_some, entry_removeFile hremoved, if_neg hother]

theorem getD_removeFile (d : RuntimeDir) (name : String) :
    ((d.removeFile name).getD d).processes = d.processes ∧
      ((d.removeFile name).getD d).cleanups = d.cleanups ∧
      ((d.removeFile name).getD d).now = d.now := by
  cases hremoved : d.removeFile name with
  | none => exact ⟨rfl, rfl, rfl⟩
  | some d' =>
    obtain ⟨-, rfl⟩ := removeFile_eq_some hremoved
    exact ⟨rfl, rfl, rfl⟩

end Files

/-- A bind fails and leaves everything as it was, or replaces what had the name by a socket at
which the process listens. -/
theorem bind_cases (d : RuntimeDir) (pid : ℕ) (p : DirProcess) (cwd : Bytes) :
    d.bind pid p cwd = d ∨
      (∀ other, (d.bind pid p cwd).entry other =
        if other = socketName pid cwd then some ⟨socketName pid cwd, .socket, d.now⟩
        else d.entry other) ∧
      (∀ other, (d.bind pid p cwd).processes other =
        if other = pid then some { p with listener := some (socketName pid cwd) }
        else d.processes other) ∧
      (d.bind pid p cwd).cleanups = d.cleanups := by
  unfold bind
  dsimp only
  obtain ⟨hprocesses, hcleanups, hnow⟩ := getD_removeFile d (socketName pid cwd)
  rw [hnow]
  cases hcreated : ((d.removeFile (socketName pid cwd)).getD d).createFile (socketName pid cwd)
      .socket d.now with
  | none =>
    left
    cases hremoved : d.removeFile (socketName pid cwd) with
    | none => rfl
    | some d' =>
      rw [hremoved] at hcreated
      have hfree : d'.entry (socketName pid cwd) = none := by
        rw [entry_removeFile hremoved, if_pos rfl]
      unfold createFile at hcreated
      rw [Option.getD_some, if_pos hfree] at hcreated
      cases hcreated
  | some d' =>
    right
    refine ⟨?_, ?_, ?_⟩
    · intro other
      refine (entry_createFile hcreated other).trans ?_
      split
      · rfl
      · rename_i hother
        exact entry_getD_removeFile hother
    · intro other
      obtain ⟨-, heq⟩ := Option.ite_none_right_eq_some.mp hcreated
      obtain rfl := Option.some.inj heq
      unfold setProcess
      dsimp only
      rw [hprocesses]
    · obtain ⟨-, heq⟩ := Option.ite_none_right_eq_some.mp hcreated
      obtain rfl := Option.some.inj heq
      exact hcleanups

/-- Processes have numbers that a signal can be sent to, and listen at sockets of their own. -/
structure Sound (d : RuntimeDir) : Prop where
  pids : ∀ pid p, d.processes pid = some p → 0 < pid ∧ pid < 2 ^ 31
  listeners : ∀ pid p name, d.processes pid = some p → p.listener = some name →
    ∃ cwd, name = socketName pid cwd

/-- A process exists as long as it is in the table of processes. -/
theorem Sound.pidExists (hd : d.Sound) {p : DirProcess} (hp : d.processes pid = some p) :
    pidExists d.testKill pid = true := by
  obtain ⟨hpositive, hsmall⟩ := hd.pids pid p hp
  unfold G2mirror.pidExists testKill
  rw [if_neg (by omega), hp]
  cases hours : p.ours <;> simp [hours]

/-- The name of a socket says which process listens at it. -/
theorem Sound.socketPid (hd : d.Sound) {p : DirProcess} (hp : d.processes pid = some p)
    (hlistener : p.listener = some name) :
    socketPid name = some pid ∧ isValidSocketName name = true := by
  obtain ⟨hpositive, hsmall⟩ := hd.pids pid p hp
  obtain ⟨cwd, rfl⟩ := hd.listeners pid p name hp hlistener
  have hlarge : pid < 2 ^ 32 := by omega
  exact ⟨socketPid_socketName hlarge cwd, isValidSocketName_socketName hlarge cwd⟩

/-- Nobody listens at a socket that has no process. -/
theorem Sound.not_listening (hd : d.Sound) (h : d.isOwned name = false) :
    ∀ pid p, d.processes pid = some p → p.listener ≠ some name := by
  intro pid p hp hlistener
  unfold isOwned at h
  rw [(hd.socketPid hp hlistener).1, Option.any_some, hd.pidExists hp] at h
  cases h

section Steps

/-- A process may change as long as it listens at a socket of its own. -/
theorem Sound.update (hd : d.Sound) (pid : ℕ) (p : Option DirProcess)
    (hprocesses : ∀ other, d'.processes other = if other = pid then p else d.processes other)
    (hpid : ∀ q, p = some q → 0 < pid ∧ pid < 2 ^ 31)
    (hlistener : ∀ q name, p = some q → q.listener = some name →
      ∃ cwd, name = socketName pid cwd) : d'.Sound := by
  constructor
  · intro other q hq
    rw [hprocesses] at hq
    split at hq
    · rename_i heq
      exact heq ▸ hpid q hq
    · exact hd.pids other q hq
  · intro other q name hq hname
    rw [hprocesses] at hq
    split at hq
    · rename_i heq
      exact heq ▸ hlistener q name hq hname
    · exact hd.listeners other q name hq hname

theorem Sound.of_processes (hd : d.Sound) (h : d'.processes = d.processes) : d'.Sound := by
  constructor
  · rw [h]
    exact hd.pids
  · rw [h]
    exact hd.listeners

/-- What a process that exists needs to stay sound. -/
theorem Sound.set (hd : d.Sound) {p : DirProcess} (hp : d.processes pid = some p)
    (listener : Option String) (hlistener : ∀ name, listener = some name →
      ∃ cwd, name = socketName pid cwd)
    (hprocesses : ∀ other, d'.processes other =
      if other = pid then some { p with listener := listener } else d.processes other) :
    d'.Sound := by
  apply hd.update pid _ hprocesses
  · intro _ _
    exact hd.pids pid p hp
  · intro q name hq hname
    obtain rfl := Option.some.inj hq
    exact hlistener name hname

theorem bind_eq_some {cwd : Bytes} (h : d.step (.bind pid cwd) = some d') :
    ∃ p, d.processes pid = some p ∧ p.listener = none ∧ d' = d.bind pid p cwd := by
  unfold RuntimeDir.step at h
  dsimp only at h
  split at h
  · cases h
  · rename_i p hp
    obtain ⟨hlistener, heq⟩ := Option.ite_none_right_eq_some.mp h
    exact ⟨p, hp, hlistener, (Option.some.inj heq).symm⟩

theorem drop_eq_some (h : d.step (.drop pid) = some d') :
    ∃ p name, d.processes pid = some p ∧ p.listener = some name ∧
      d' = ((d.removeFile name).getD d).setProcess pid (some { p with listener := none }) := by
  unfold RuntimeDir.step at h
  dsimp only at h
  split at h
  · cases h
  · rename_i p hp
    split at h
    · cases h
    · rename_i name hname
      exact ⟨p, name, hp, hname, (Option.some.inj h).symm⟩

theorem examine_eq_some {i : ℕ} (h : d.step (.examine i name) = some d') :
    d' = d ∨ ∃ c, d.cleanups[i]? = some c ∧ d.isAged c.began name = true ∧
      d' = d.setCleanup i { c with aged := some name } := by
  unfold RuntimeDir.step at h
  dsimp only at h
  split at h
  · cases h
  · rename_i c hc
    split at h
    · rename_i haged
      exact .inr ⟨c, hc, haged.2.2, (Option.some.inj h).symm⟩
    · exact .inl (Option.some.inj h).symm

theorem probe_eq_some {i : ℕ} (h : d.step (.probe i) = some d') :
    ∃ c name doomed, d.cleanups[i]? = some c ∧ c.aged = some name ∧
      (∀ other, doomed = some other → other = name ∧ d.isOwned name = false) ∧
      d' = d.setCleanup i { c with aged := none, doomed := doomed } := by
  unfold RuntimeDir.step at h
  dsimp only at h
  split at h
  · cases h
  · rename_i c hc
    split at h
    · cases h
    · rename_i name hname
      refine ⟨c, name, _, hc, hname, ?_, (Option.some.inj h).symm⟩
      intro other hother
      obtain ⟨hfree, heq⟩ := Option.ite_none_left_eq_some.mp hother
      exact ⟨(Option.some.inj heq).symm, Bool.eq_false_iff.mpr hfree⟩

theorem remove_eq_some {i : ℕ} (h : d.step (.remove i) = some d') :
    ∃ c name, d.cleanups[i]? = some c ∧ c.doomed = some name ∧
      (d.removeFile name = none ∧ d' = d.setCleanup i { c with doomed := none } ∨
        ∃ t, d.removeFile name = some t ∧ d' = t.setCleanup i
          { c with doomed := none, removed := name :: c.removed }) := by
  unfold RuntimeDir.step at h
  dsimp only at h
  split at h
  · cases h
  · rename_i c hc
    split at h
    · cases h
    · rename_i name hname
      split at h
      · rename_i hremoved
        exact ⟨c, name, hc, hname, .inl ⟨hremoved, (Option.some.inj h).symm⟩⟩
      · rename_i t hremoved
        exact ⟨c, name, hc, hname, .inr ⟨t, hremoved, (Option.some.inj h).symm⟩⟩

theorem Sound.step {a : Action} (hd : d.Sound) (h : d.step a = some d') : d'.Sound := by
  cases a with
  | clock now =>
    obtain rfl := Option.some.inj h
    exact hd.of_processes rfl
  | spawn pid ours =>
    obtain ⟨⟨hpositive, hsmall, -⟩, heq⟩ := Option.ite_none_right_eq_some.mp h
    obtain rfl := Option.some.inj heq
    apply hd.update pid (some ⟨ours, none⟩) fun _ => rfl
    · intro _ _
      exact ⟨hpositive, hsmall⟩
    · intro q name hq hname
      obtain rfl := Option.some.inj hq
      cases hname
  | bind pid cwd =>
    obtain ⟨p, hp, -, rfl⟩ := bind_eq_some h
    rcases bind_cases d pid p cwd with hsame | ⟨-, hprocesses, -⟩
    · rw [hsame]
      exact hd
    · refine hd.set hp _ ?_ hprocesses
      intro name hname
      exact ⟨cwd, (Option.some.inj hname).symm⟩
  | drop pid =>
    obtain ⟨p, name, hp, -, rfl⟩ := drop_eq_some h
    refine hd.set hp none nofun ?_
    intro other
    unfold setProcess
    rw [(getD_removeFile d name).1]
  | exit pid =>
    obtain ⟨-, heq⟩ := Option.ite_none_right_eq_some.mp h
    obtain rfl := Option.some.inj heq
    exact hd.update pid none (fun _ => rfl) nofun nofun
  | create name kind modified =>
    obtain ⟨-, heq⟩ := Option.ite_none_right_eq_some.mp h
    obtain rfl := Option.some.inj heq
    exact hd.of_processes rfl
  | cleanup =>
    obtain rfl := Option.some.inj h
    exact hd.of_processes rfl
  | examine i name =>
    rcases examine_eq_some h with rfl | ⟨c, -, -, rfl⟩
    · exact hd
    · exact hd.of_processes rfl
  | probe i =>
    obtain ⟨c, name, doomed, -, -, -, rfl⟩ := probe_eq_some h
    exact hd.of_processes rfl
  | remove i =>
    obtain ⟨c, name, -, -, ⟨-, rfl⟩ | ⟨t, hremoved, rfl⟩⟩ := remove_eq_some h
    · exact hd.of_processes rfl
    · obtain ⟨-, rfl⟩ := removeFile_eq_some hremoved
      exact hd.of_processes rfl

theorem sound_of_run {as : List Action} (h : Machine.run step empty as = some d) : d.Sound := by
  have hempty : empty.Sound := ⟨nofun, nofun⟩
  exact Machine.run_invariant (fun _ _ _ hd h => Sound.step hd h) hempty h

/-- The process listens at its socket, which is in the directory, and which no cleanup is about to
remove. -/
structure Listed (d : RuntimeDir) (pid : ℕ) (name : String) : Prop where
  listening : ∃ p, d.processes pid = some p ∧ p.listener = some name
  entry : ∃ e, d.entry name = some e ∧ e.kind = .socket
  spared : ∀ c ∈ d.cleanups, c.doomed ≠ some name

/-- A step that has to do with neither the process nor the socket. -/
theorem Listed.beside (hlisted : d.Listed pid name)
    (hprocess : d'.processes pid = d.processes pid) (hentry : d'.entry name = d.entry name)
    (hspared : ∀ c ∈ d'.cleanups, c.doomed ≠ some name) : d'.Listed pid name := by
  constructor
  · rw [hprocess]
    exact hlisted.listening
  · rw [hentry]
    exact hlisted.entry
  · exact hspared

/-- A process begins, and has another number. -/
theorem Listed.spawn {other : ℕ} {ours : Bool} (hlisted : d.Listed pid name)
    (h : d.step (.spawn other ours) = some d') : d'.Listed pid name := by
  obtain ⟨p, hp, -⟩ := hlisted.listening
  obtain ⟨⟨-, -, hfree⟩, heq⟩ := Option.ite_none_right_eq_some.mp h
  obtain rfl := Option.some.inj heq
  have hne : pid ≠ other := by
    rintro rfl
    rw [hp] at hfree
    cases hfree
  exact hlisted.beside (if_neg hne) rfl hlisted.spared

/-- Another process binds a socket, and its name begins with another number. -/
theorem Listed.bind {other : ℕ} {cwd : Bytes} (hlisted : d.Listed pid name) (hd : d.Sound)
    (h : d.step (.bind other cwd) = some d') : d'.Listed pid name := by
  obtain ⟨p, hp, hlistener⟩ := hlisted.listening
  obtain ⟨q, hq, hidle, rfl⟩ := bind_eq_some h
  have hne : pid ≠ other := by
    rintro rfl
    obtain rfl := Option.some.inj (hp.symm.trans hq)
    rw [hidle] at hlistener
    cases hlistener
  rcases bind_cases d other q cwd with hsame | ⟨hentries, hprocesses, hcleanups⟩
  · rwa [hsame]
  · have hother : name ≠ socketName other cwd := by
      rintro rfl
      have hname := (hd.socketPid hp hlistener).1
      have hsmall := (hd.pids other q hq).2
      rw [socketPid_socketName (by omega)] at hname
      exact hne (Option.some.inj hname).symm
    exact hlisted.beside ((hprocesses pid).trans (if_neg hne))
      ((hentries name).trans (if_neg hother)) (hcleanups ▸ hlisted.spared)

/-- Another process takes its own socket away. -/
theorem Listed.drop_other {other : ℕ} (hlisted : d.Listed pid name) (hd : d.Sound)
    (hne : pid ≠ other) (h : d.step (.drop other) = some d') : d'.Listed pid name := by
  obtain ⟨p, hp, hlistener⟩ := hlisted.listening
  obtain ⟨q, socket, hq, hsocket, rfl⟩ := drop_eq_some h
  have hother : name ≠ socket := by
    rintro rfl
    have hsame := (hd.socketPid hq hsocket).1
    rw [(hd.socketPid hp hlistener).1] at hsame
    exact hne (Option.some.inj hsame)
  obtain ⟨hprocesses, hcleanups, -⟩ := getD_removeFile d socket
  refine hlisted.beside ?_ (entry_getD_removeFile hother) (hcleanups ▸ hlisted.spared)
  unfold setProcess
  rw [hprocesses]
  exact if_neg hne

/-- What is put into the directory has a name that was free. -/
theorem Listed.create {other : String} {kind : FileKind} {modified : ℕ}
    (hlisted : d.Listed pid name) (h : d.step (.create other kind modified) = some d') :
    d'.Listed pid name := by
  obtain ⟨e, he, -⟩ := hlisted.entry
  have hentry := entry_createFile h name
  obtain ⟨hfree, heq⟩ := Option.ite_none_right_eq_some.mp h
  obtain rfl := Option.some.inj heq
  have hother : name ≠ other := by
    rintro rfl
    rw [he] at hfree
    cases hfree
  rw [if_neg hother] at hentry
  exact hlisted.beside rfl hentry hlisted.spared

/-- A cleanup goes on, and is not about to remove the socket. -/
theorem Listed.setCleanup {t : RuntimeDir} {c : Cleanup} (hlisted : d.Listed pid name) (i : ℕ)
    (hprocesses : t.processes = d.processes) (hentry : t.entry name = d.entry name)
    (hcleanups : t.cleanups = d.cleanups) (hc : c.doomed ≠ some name) :
    (t.setCleanup i c).Listed pid name := by
  refine hlisted.beside (congrFun hprocesses pid) hentry fun c' hc' => ?_
  rcases List.mem_or_eq_of_mem_set hc' with hold | rfl
  · exact hlisted.spared c' (hcleanups ▸ hold)
  · exact hc

/-- A cleanup does not remove a socket that has a process. -/
theorem Listed.probe {i : ℕ} (hlisted : d.Listed pid name) (hd : d.Sound)
    (h : d.step (.probe i) = some d') : d'.Listed pid name := by
  obtain ⟨p, hp, hlistener⟩ := hlisted.listening
  obtain ⟨c, other, doomed, -, -, hdoomed, rfl⟩ := probe_eq_some h
  refine hlisted.setCleanup i rfl rfl rfl fun hname => ?_
  obtain ⟨rfl, hfree⟩ := hdoomed name hname
  exact hd.not_listening hfree pid p hp hlistener

/-- A cleanup removes something else. -/
theorem Listed.remove {i : ℕ} (hlisted : d.Listed pid name)
    (h : d.step (.remove i) = some d') : d'.Listed pid name := by
  obtain ⟨c, other, hc, hdoomed, ⟨-, rfl⟩ | ⟨t, hremoved, rfl⟩⟩ := remove_eq_some h
  · exact hlisted.setCleanup i rfl rfl rfl nofun
  · have hother : name ≠ other := by
      rintro rfl
      exact hlisted.spared c (List.mem_of_getElem? hc) hdoomed
    have hentry := entry_removeFile hremoved name
    obtain ⟨-, rfl⟩ := removeFile_eq_some hremoved
    rw [if_neg hother] at hentry
    exact hlisted.setCleanup i rfl hentry rfl nofun

/-- Nobody but its process touches a socket that is listed. -/
theorem Listed.step {a : Action} (hlisted : d.Listed pid name) (hd : d.Sound)
    (hdrop : a ≠ .drop pid) (hexit : a ≠ .exit pid) (h : d.step a = some d') :
    d'.Listed pid name := by
  cases a with
  | clock now =>
    obtain rfl := Option.some.inj h
    exact hlisted.beside rfl rfl hlisted.spared
  | spawn other ours => exact hlisted.spawn h
  | bind other cwd => exact hlisted.bind hd h
  | drop other =>
    have hne : pid ≠ other := fun heq => hdrop (heq ▸ rfl)
    exact hlisted.drop_other hd hne h
  | exit other =>
    obtain ⟨-, heq⟩ := Option.ite_none_right_eq_some.mp h
    obtain rfl := Option.some.inj heq
    have hne : pid ≠ other := fun heq => hexit (heq ▸ rfl)
    exact hlisted.beside (if_neg hne) rfl hlisted.spared
  | create other kind modified => exact hlisted.create h
  | cleanup =>
    obtain rfl := Option.some.inj h
    refine hlisted.beside rfl rfl fun c hc => ?_
    rcases List.mem_append.mp hc with hold | hnew
    · exact hlisted.spared c hold
    · obtain rfl := List.mem_singleton.mp hnew
      exact nofun
  | examine i other =>
    rcases examine_eq_some h with rfl | ⟨c, hc, -, rfl⟩
    · exact hlisted
    · exact hlisted.setCleanup i rfl rfl rfl (hlisted.spared c (List.mem_of_getElem? hc))
  | probe i => exact hlisted.probe hd h
  | remove i => exact hlisted.remove h

end Steps

/-- A session that is listed is found, by name and by the processes within it. -/
theorem Listed.found (hlisted : d.Listed pid name) (hd : d.Sound) :
    name ∈ liveSessionSockets d.surroundings ∧ d.enclosingSession name = some name := by
  obtain ⟨⟨p, hp, hlistener⟩, ⟨e, he, hkind⟩, -⟩ := hlisted
  obtain ⟨hname, hvalid⟩ := hd.socketPid hp hlistener
  have hmem : name ∈ d.surroundings.entries := by
    have hsame : e.name = name := by
      have hfound := List.find?_some he
      exact of_decide_eq_true hfound
    exact List.mem_map.mpr ⟨e, List.mem_of_find?_eq_some he, hsame⟩
  constructor
  · refine List.mem_filter.mpr ⟨hmem, ?_⟩
    rw [hvalid, hname, Bool.true_and]
    exact hd.pidExists hp
  · unfold enclosingSession
    rw [he]
    exact if_pos (decide_eq_true hkind)

/-- A listener that is dropped takes its socket away. -/
theorem Listed.drop (hlisted : d.Listed pid name) (h : d.step (.drop pid) = some d') :
    name ∉ liveSessionSockets d'.surroundings := by
  obtain ⟨⟨p, hp, hlistener⟩, ⟨e, he, hkind⟩, -⟩ := hlisted
  obtain ⟨q, socket, hq, hsocket, rfl⟩ := drop_eq_some h
  obtain rfl := Option.some.inj (hp.symm.trans hq)
  obtain rfl := Option.some.inj (hlistener.symm.trans hsocket)
  have hremoved := removeFile_of_entry he (by rw [hkind]; decide)
  have hgone := entry_removeFile hremoved name
  rw [if_pos rfl] at hgone
  rw [hremoved]
  exact notMem_liveSessionSockets hgone

theorem Listed.run {as : List Action} (hlisted : d.Listed pid name) (hd : d.Sound)
    (has : ∀ a ∈ as, a ≠ .drop pid ∧ a ≠ .exit pid)
    (h : Machine.run RuntimeDir.step d as = some d') :
    d'.Listed pid name ∧ d'.Sound := by
  induction as generalizing d with
  | nil =>
    obtain rfl := Option.some.inj h
    exact ⟨hlisted, hd⟩
  | cons a as ih =>
    obtain ⟨t, ht, hrest⟩ := Machine.run_cons_eq_some.mp h
    obtain ⟨⟨hdrop, hexit⟩, has⟩ := List.forall_mem_cons.mp has
    exact ih (hlisted.step hd hdrop hexit ht) (hd.step ht) has hrest

/-- In the course of these actions a socket was found to be old, and later to have no process. -/
def Condemned (as : List Action) (began : ℕ) (name : String) : Prop :=
  ∃ later, later <+: as ∧
    (Machine.Passed step empty later fun t => t.isAged began name = true) ∧
    ∃ t, Machine.run step empty later = some t ∧ t.isOwned name = false

theorem Condemned.concat {as : List Action} {began : ℕ} (h : Condemned as began name)
    (a : Action) : Condemned (as ++ [a]) began name := by
  obtain ⟨later, hlater, hfound⟩ := h
  exact ⟨later, hlater.trans (List.prefix_append as [a]), hfound⟩

/-- What a cleanup has found out was so. -/
structure Cleanup.Judged (as : List Action) (c : Cleanup) : Prop where
  aged : ∀ name, c.aged = some name →
    Machine.Passed step empty as fun t => t.isAged c.began name = true
  condemned : ∀ name, c.doomed = some name ∨ name ∈ c.removed → Condemned as c.began name

theorem Cleanup.Judged.concat {as : List Action} {c : Cleanup} (h : Cleanup.Judged as c)
    (a : Action) : Cleanup.Judged (as ++ [a]) c :=
  ⟨fun name hname => (h.aged name hname).concat a,
    fun name hname => (h.condemned name hname).concat a⟩

/-- What every cleanup has found out was so. -/
def Judged (as : List Action) (d : RuntimeDir) : Prop := ∀ c ∈ d.cleanups, Cleanup.Judged as c

section Judging

variable {as : List Action} {a : Action}

theorem Judged.beside (hjudged : Judged as d) (hcleanups : d'.cleanups = d.cleanups) :
    Judged (as ++ [a]) d' := by
  intro c hc
  exact (hjudged c (hcleanups ▸ hc)).concat a

theorem Judged.setCleanup {t : RuntimeDir} {i : ℕ} {c : Cleanup} (hjudged : Judged as d)
    (hcleanups : t.cleanups = d.cleanups) (hc : Cleanup.Judged as c) :
    Judged (as ++ [a]) (t.setCleanup i c) := by
  intro c' hc'
  rcases List.mem_or_eq_of_mem_set hc' with hold | rfl
  · exact (hjudged c' (hcleanups ▸ hold)).concat a
  · exact hc.concat a

/-- A cleanup has just seen what it takes for an old socket. -/
theorem Judged.examine {i : ℕ} (hrun : Machine.run RuntimeDir.step empty as = some d)
    (hjudged : Judged as d) (h : d.step (.examine i name) = some d') :
    Judged (as ++ [.examine i name]) d' := by
  rcases examine_eq_some h with rfl | ⟨c, hc, haged, rfl⟩
  · exact hjudged.beside rfl
  · refine hjudged.setCleanup rfl ⟨?_, (hjudged c (List.mem_of_getElem? hc)).condemned⟩
    intro other hother
    obtain rfl := Option.some.inj hother
    exact .here hrun haged

/-- A cleanup has just looked for a process of the socket. -/
theorem Judged.probe {i : ℕ} (hrun : Machine.run RuntimeDir.step empty as = some d)
    (hjudged : Judged as d) (h : d.step (.probe i) = some d') : Judged (as ++ [.probe i]) d' := by
  obtain ⟨c, socket, doomed, hc, haged, hdoomed, rfl⟩ := probe_eq_some h
  have hold := hjudged c (List.mem_of_getElem? hc)
  refine hjudged.setCleanup rfl ⟨nofun, fun other hother => ?_⟩
  rcases hother with hnow | hremoved
  · obtain ⟨rfl, hfree⟩ := hdoomed other hnow
    exact ⟨as, List.prefix_rfl, hold.aged _ haged, d, hrun, hfree⟩
  · exact hold.condemned other (.inr hremoved)

theorem Judged.remove {i : ℕ} (hjudged : Judged as d) (h : d.step (.remove i) = some d') :
    Judged (as ++ [.remove i]) d' := by
  obtain ⟨c, socket, hc, hdoomed, ⟨-, rfl⟩ | ⟨t, hremoved, rfl⟩⟩ := remove_eq_some h
  · have hold := hjudged c (List.mem_of_getElem? hc)
    refine hjudged.setCleanup rfl ⟨hold.aged, fun other hother => ?_⟩
    rcases hother with hnone | hremoved
    · cases hnone
    · exact hold.condemned other (.inr hremoved)
  · have hold := hjudged c (List.mem_of_getElem? hc)
    obtain ⟨-, rfl⟩ := removeFile_eq_some hremoved
    refine hjudged.setCleanup rfl ⟨hold.aged, fun other hother => ?_⟩
    rcases hother with hnone | hnew
    · cases hnone
    · rcases List.mem_cons.mp hnew with rfl | hearlier
      · exact hold.condemned _ (.inl hdoomed)
      · exact hold.condemned other (.inr hearlier)

theorem Judged.step (hrun : Machine.run RuntimeDir.step empty as = some d)
    (hjudged : Judged as d) (h : d.step a = some d') : Judged (as ++ [a]) d' := by
  cases a with
  | clock now =>
    obtain rfl := Option.some.inj h
    exact hjudged.beside rfl
  | spawn pid ours =>
    obtain ⟨-, heq⟩ := Option.ite_none_right_eq_some.mp h
    obtain rfl := Option.some.inj heq
    exact hjudged.beside rfl
  | bind pid cwd =>
    obtain ⟨p, -, -, rfl⟩ := bind_eq_some h
    rcases bind_cases d pid p cwd with hsame | ⟨-, -, hcleanups⟩
    · exact hjudged.beside (congrArg cleanups hsame)
    · exact hjudged.beside hcleanups
  | drop pid =>
    obtain ⟨p, name, -, -, rfl⟩ := drop_eq_some h
    exact hjudged.beside (getD_removeFile d name).2.1
  | exit pid =>
    obtain ⟨-, heq⟩ := Option.ite_none_right_eq_some.mp h
    obtain rfl := Option.some.inj heq
    exact hjudged.beside rfl
  | create name kind modified =>
    obtain ⟨-, heq⟩ := Option.ite_none_right_eq_some.mp h
    obtain rfl := Option.some.inj heq
    exact hjudged.beside rfl
  | cleanup =>
    obtain rfl := Option.some.inj h
    intro c hc
    rcases List.mem_append.mp hc with hold | hnew
    · exact (hjudged c hold).concat _
    · obtain rfl := List.mem_singleton.mp hnew
      exact ⟨nofun, fun name hname => by rcases hname with hnone | hnone <;> cases hnone⟩
  | examine i name => exact hjudged.examine hrun h
  | probe i => exact hjudged.probe hrun h
  | remove i => exact hjudged.remove h

end Judging

end RuntimeDir

end G2mirror
