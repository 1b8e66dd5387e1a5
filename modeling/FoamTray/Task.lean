import FoamTray.Catalog.Import
import FoamTray.Document.ManifestJson
import FoamTray.Document.OrderJson
import FoamTray.Json.Reader
import FoamTray.Json.Writer
import FoamTray.Raster.Coverage
import FoamTray.Session

/-! # Tasks

    What can be done with saved workspaces without a person: validate one, order one, or write one
    anew. A task gets the contents of its files and answers the contents of the files that it
    writes.
-/

namespace FoamTray

/-- A file: its content, if there is one. -/
abbrev FileContent := Option String

/-- Why a document is not to be had. -/
inductive FileError where
  /-- There is no file. -/
  | missing
  /-- Its content is not a document of the kind. -/
  | malformed
  deriving DecidableEq, Repr

/-- The text that explains why a document is not to be had. -/
def FileError.message : FileError → String
  | .missing => "could not open"
  | .malformed => "could not parse"

/-- Why a task ends without an answer. -/
inductive TaskError where
  /-- No settings. -/
  | settingsFile (e : FileError)
  /-- Settings that are refused. -/
  | settings (e : SettingsError Single)
  /-- No manifest. -/
  | manifestFile (e : FileError)
  /-- No workspace. -/
  | workspaceFile (e : FileError)
  /-- A workspace that is refused, or a layout that cannot be validated. -/
  | layout (e : LayoutError Single)
  /-- A layout that cannot be ordered. -/
  | order (e : LayoutError Single)

/-- The text that explains why a task ends without an answer. -/
def TaskError.message : TaskError → String
  | .settingsFile e => "incorrect config file format: " ++ e.message
  | .settings e => "invalid config values: " ++ e.message
  | .manifestFile e => "incorrect manifest format: " ++ e.message
  | .workspaceFile e => "incorrect workspace format: " ++ e.message
  | .layout e => e.message
  | .order e => "cannot export: " ++ e.message

namespace Task

/-- The document that a file holds. -/
def readDocument {β : Type} (decode : Json → Option β) : FileContent → Except FileError β
  | none => .error .missing
  | some text =>
      match (Json.parse text).bind decode with
      | some v => .ok v
      | none => .error .malformed

/-- The settings of a file; the defaults if no file is named. -/
def loadSettings : Option FileContent → Except TaskError (Settings Single)
  | none => .ok .standard
  | some file =>
      match readDocument Settings.ofJson? file with
      | .error e => .error (.settingsFile e)
      | .ok s =>
          match s.fault? with
          | some e => .error (.settings e)
          | none => .ok s

/-- The catalog of a manifest file. -/
def loadCatalog (file : FileContent) : Except TaskError (Catalog Single) :=
  match readDocument Manifest.ofJson? file with
  | .error e => .error (.manifestFile e)
  | .ok m => .ok m.catalog

/-- A session on the workspace of a file. -/
def openSession (catalog : Catalog Single) (s : Settings Single) (file : FileContent) :
    Except TaskError (Session Single) :=
  match readDocument Workspace.ofJson? file with
  | .error e => .error (.workspaceFile e)
  | .ok doc =>
      match (Session.make catalog s).restore doc with
      | (.error e, _) => .error (.layout e)
      | (.ok _, x) => .ok x

/-- A session on the files of a task, read in the order settings, manifest, workspace. -/
def openFiles (settings : Option FileContent) (manifest workspace : FileContent) :
    Except TaskError (Session Single) := do
  let s ← loadSettings settings
  let catalog ← loadCatalog manifest
  openSession catalog s workspace

/-- The text of a file that a document is written to. -/
def fileText (document : Json) : String := document.indented 0

/-- The rasterizer of a session. -/
def rasterizer (x : Session Single) : Rasterizer Single := Coverage.rasterizer x.settings.raster

/-! ## Validating -/

/-- The answer of a validation. -/
structure Validation where
  /-- Whether the layout can be produced. -/
  valid : Bool
  /-- How many entities break each rule. -/
  issues : LayoutIssues
  /-- What a person is told. -/
  message : String
  deriving DecidableEq, Repr

/-- The answer of a validation as a document. -/
def Validation.toJson (v : Validation) : Json :=
  .object [("valid", .bool v.valid), ("issues", v.issues.toJson), ("message", .string v.message)]

/-- Validates the layout; the second part of the answer is a drawing with the offenders
    highlighted. -/
def validate (x : Session Single) : Except TaskError (Validation × String) :=
  match x.check (rasterizer x) with
  | (.error e, _) => .error (.layout e)
  | (.ok report, x) =>
      let issues := report.issues
      .ok (⟨issues.isEmpty, issues, issues.message⟩,
        x.layout.drawing x.settings .standard "validation")

/-! ## Ordering -/

/-- Orders the layout; the second part of the answer is a drawing, also of a layout that cannot be
    ordered. -/
def order (x : Session Single) : Except TaskError OrderDocument × String :=
  let (outcome, x) := x.export (rasterizer x)
  let drawing := x.layout.drawing x.settings .standard "order preview"
  match outcome with
  | .error e => (.error (.order e), drawing)
  | .ok doc => (.ok doc, drawing)

/-! ## Writing anew -/

/-- The workspace of the session, stamped with a time. -/
def normalize (x : Session Single) (stamp : String) : Workspace Single :=
  { x.save.1 with savedAt := some stamp }

/-! ## Files that are read back -/

/-- Whether a written order is read as the order that it was written from. An order with a number
    that is not finite cannot be read at all. -/
def orderReadsBack (doc : OrderDocument) : Except FileError Bool :=
  (readDocument OrderDocument.ofJson? (some (fileText doc.toJson))).map (· == doc)

/-- Whether a written workspace is read as the workspace that it was written from. A workspace
    with a number that is not finite cannot be read at all. -/
def workspaceReadsBack (doc : Workspace Single) : Except FileError Bool :=
  (readDocument Workspace.ofJson? (some (fileText doc.toJson))).map (· == doc)

end Task

end FoamTray
