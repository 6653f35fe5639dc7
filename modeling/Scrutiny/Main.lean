import Scrutiny.CommandLine.Reply

/-!
The program.  It reads a project into a tree, lets the library do the work, and writes the state
files that changed.  While it watches, it looks at the files' times again and again.
-/

namespace Scrutiny.Program

/-! ## The clock -/

/-- The time that the file system gives to a file written now. -/
def clock : IO Instant := do
  let (handle, file) ← IO.FS.createTempFile
  handle.putStr " "
  handle.flush
  let modified := (← file.metadata).modified
  IO.FS.removeFile file
  pure ⟨modified.sec, modified.nsec.toNat⟩

def dayOf (instant : Instant) : Date :=
  Date.ofDayNumber (instant.seconds / 86400)

/-! ## Reading a project -/

def contentAt? (file : String) : IO (Option Content) := do
  try
    let bytes ← IO.FS.readBinFile file
    pure (some (Content.ofBytes bytes))
  catch _ => pure none

def unreadable : Content := .binary ⟨#[255]⟩

def targetOf (link : String) : IO String := do
  try
    let target ← IO.FS.realPath link
    pure target.toString
  catch _ => pure link

/-- The files of a repository's own that an analysis reads, in whatever directory they lie. -/
def isRepositoryFile (file : Path) : Bool :=
  file.endsWith ["info", "exclude"] || file.endsWith [IgnoreLevel.commonName.text]

/-- The entries of a directory.  Other files below directories with a skipped name are not
read. -/
partial def entriesOf (skipDirs : List String) (reading : Bool) (directory : String) :
    IO (List (String × Node)) := do
  let listed ← try (← IO.FS.realPath directory).readDir catch _ => pure #[]
  let mut entries := []
  for entry in listed do
    let name := entry.fileName
    let place := s!"{directory}/{name}"
    match (← entry.path.symlinkMetadata).type with
    | .dir =>
        let below ← entriesOf skipDirs (reading && !skipDirs.contains name) place
        entries := (name, .dir below) :: entries
    | .symlink => entries := (name, .link (← targetOf place)) :: entries
    | .file =>
        let content ← if reading || isRepositoryFile ⟨place⟩ then contentAt? place else pure none
        entries := (name, .file (content.getD unreadable)) :: entries
    | .other => pure ()
  pure entries

def addFile (tree : Tree) (file : Path) : IO Tree := do
  match ← contentAt? file.text with
  | none => pure tree
  | some content =>
      let made := ((file.parent?).map fun parent => (tree.makeDirs parent).2).getD tree
      pure ((made.writeFile file content).toOption.getD tree)

def namesOf (path : Path) : List String :=
  path.components.filterMap fun component =>
    match component with
    | .normal name => some name
    | _ => none

def bareTree (root : Path) : Tree :=
  (({ top := .dir [] } : Tree).makeDirs root).2

def configOf (root : Path) : IO Config := do
  let tree ← addFile (bareTree root) (Config.filePath root)
  pure ((Config.load tree root).toOption.getD {})

def outerDirs (names : List String) : List Path :=
  (List.range names.length).map fun depth => .ofNames (names.take depth)

/-- Adds the files that say what the repository of a working copy excludes. -/
def addExclusions (tree : Tree) (directory : Path) : IO Tree := do
  let mut tree ← addFile tree (directory.join IgnoreLevel.repositoryName)
  match (tree.content? (directory.join IgnoreLevel.repositoryName)).bind
      IgnoreLevel.pointedDir? with
  | some place => tree ← addFile tree (place.join IgnoreLevel.commonName)
  | none => pure ()
  match IgnoreLevel.repositoryDir? tree directory with
  | some own => addFile tree (own.join IgnoreLevel.untrackedFile)
  | none => pure tree

def namedFiles (root : Path) (names : List String) (config : Config) : List Path :=
  let ignoreFiles := (outerDirs names).flatMap fun directory =>
    [IgnoreLevel.plainFile, IgnoreLevel.trackedFile].map directory.join
  ignoreFiles ++ config.analysis.ruleDocuments.map root.join ++
    [Config.filePath root, config.state.criticismsPath root, config.state.preferencesPath root]

def snapshot (root : Path) (config : Config) : IO Tree := do
  let names := namesOf root
  let entries ← entriesOf config.analysis.skipDirs true root.text
  let here ← IO.currentDir
  let (_, made) := ((bareTree root).put names (.dir entries)).makeDirs ⟨here.toString⟩
  let mut tree : Tree := { made with directory := namesOf ⟨here.toString⟩ }
  for file in namedFiles root names config do
    tree ← addFile tree file
  for directory in root :: outerDirs names do
    tree ← addExclusions tree directory
  pure tree

def saveState (files : StateFiles) (before after : Tree) : IO Unit := do
  for file in [files.worklist.path, files.preferences.path] do
    match after.readText? file with
    | none => pure ()
    | some content =>
        if before.readText? file != some content then
          match file.parent? with
          | some parent => IO.FS.createDirAll parent.text
          | none => pure ()
          IO.FS.writeFile file.text content

/-! ## Watching -/

partial def timesOf (ignoredDirs : List String) (directory : String) :
    IO (List (String × Int × Nat)) := do
  let listed ← try (← IO.FS.realPath directory).readDir catch _ => pure #[]
  let mut times := []
  for entry in listed do
    let place := s!"{directory}/{entry.fileName}"
    let state ← entry.path.symlinkMetadata
    match state.type with
    | .dir =>
        if !ignoredDirs.contains entry.fileName then
          times := times ++ (← timesOf ignoredDirs place)
    | .file => times := (place, state.modified.sec, state.modified.nsec.toNat) :: times
    | _ => pure ()
  pure times

def notices (before after : List (String × Int × Nat)) : List (Path × Sighting) :=
  let here := (after.filter fun file => !before.contains file).map fun (file, _) =>
    ((⟨file⟩ : Path), Sighting.file)
  let gone := (before.filter fun file => (after.lookup file.1).isNone).map fun (file, _) =>
    ((⟨file⟩ : Path), Sighting.missing)
  here ++ gone

def say (notes : List SessionNote) : IO Unit := do
  let output ← IO.getStderr
  for note in notes do
    output.putStrLn note.text
  output.flush

def pause : UInt32 := 50

partial def follow (project : Project) (session : Session) (batcher : Batcher Unit)
    (before : List (String × Int × Nat)) : IO Unit := do
  IO.sleep pause
  let time ← IO.monoMsNow
  let after ← timesOf project.config.watch.ignoredDirs project.root.text
  let mut watcher := session.watcher
  let mut batcher := batcher
  for (file, sighting) in notices before after do
    let (event, next) := watcher.notice file sighting time
    watcher := next
    match event with
    | some event => batcher := batcher.enqueue time event
    | none => pure ()
  match batcher.timer with
  | some timer =>
      if timer.due ≤ time then
        let (delivery, next) := batcher.wake timer.generation
        batcher := next
        match delivery with
        | some delivery =>
            let tree ← snapshot project.root project.config
            let (notes, changed) := (session.analyzer.handle (← clock) delivery.batch).run tree
            saveState project.files tree changed
            say notes
        | none => pure ()
  | none => pure ()
  follow project { session with watcher } batcher after

def watch (project : Project) (tree : Tree) : IO UInt32 := do
  match (project.watch (← clock)).run.run tree with
  | (.error error, _) =>
      IO.eprintln s!"Error: {error.message}"
      pure 1
  | (.ok (notes, session), after) =>
      saveState project.files tree after
      say notes
      let times ← timesOf project.config.watch.ignoredDirs project.root.text
      let batcher : Batcher Unit := { window := project.config.watch.debounceMs }
      follow project session (batcher.onBatch ()) times
      pure 0

/-! ## Running -/

def present (reply : Reply) : IO UInt32 := do
  IO.print reply.stdout
  match reply.error with
  | some error => IO.eprintln s!"Error: {error.message}"
  | none => pure ()
  pure (UInt32.ofNat reply.exit)

def rootOf? (path : Path) : IO (Option Path) := do
  try
    let real ← IO.FS.realPath path.text
    if ← real.isDir then pure (some ⟨real.toString⟩) else pure none
  catch _ => pure none

def run (invocation : Invocation) : IO UInt32 := do
  let now ← clock
  match ← rootOf? invocation.path with
  | none => present ((invocation.reply now (dayOf now)).run (bareTree ⟨"/"⟩)).1
  | some root =>
      let config ← configOf root
      let tree ← snapshot root config
      match invocation.command, Project.open? tree root with
      | .watch, .ok project => watch project tree
      | _, _ =>
          let (reply, after) :=
            ({ invocation with path := root }.reply now (dayOf now)).run tree
          saveState (config.state.files root) tree after
          present reply

end Scrutiny.Program

def main (arguments : List String) : IO UInt32 := do
  let fallback := (← IO.getEnv "CRITIQUE_PATH").getD "."
  match Scrutiny.Invocation.parse ⟨fallback⟩ arguments with
  | .error refusal => Scrutiny.Program.present refusal.reply
  | .ok invocation => Scrutiny.Program.run invocation
