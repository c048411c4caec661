import LocaleKeys.Files.Tree
import LocaleKeys.Issue
import LocaleKeys.Markup.Lookup

/-!
# Collecting the keys of a tree

Every file to check is read on its own and comes out in one of three ways: with all of its usages,
with the first malformed call site, or skipped, if it cannot be read or evaluated. What comes out
of the files is then put together in their order, so the first file that uses a key stands for
it.
-/

namespace LocaleKeys

/-- Why a file is left out. -/
inductive SkipReason where
  | unreadable (error : ReadError)
  /-- The file is no document that can be evaluated. -/
  | unevaluated (message : String)
deriving DecidableEq

/-- The report of a reason to leave a file out. -/
def SkipReason.message : SkipReason → String
  | .unreadable error => s!"cannot read file: {error.message}"
  | .unevaluated message => s!"cannot evaluate markup: {message}"

/-- A file that is left out. -/
structure SkippedFile where
  file : String
  reason : SkipReason
deriving DecidableEq

/-- The report of a file that is left out. -/
def SkippedFile.message (skipped : SkippedFile) : String :=
  s!"{skipped.file}: {skipped.reason.message}"

/-- What comes out of a file. -/
inductive FileOutcome where
  | usages (usages : List Usage)
  | failed (failure : FileExtractionError)
  | skipped (file : SkippedFile)
deriving DecidableEq

/-- The usages at the call sites of a source text. -/
def sourceUsages (file : String) (bundle : Bundle) (text : List Char) :
    Except ExtractionError (List Usage) :=
  (CallSite.scan bundle text).map fun occurrences =>
    occurrences.map fun occurrence =>
      ⟨⟨file, occurrence.position⟩, occurrence.key, bundle, some occurrence.sourceLine⟩

/-- The usages in a markup document; they have no place of their own in it. -/
def markupUsages (file : String) (bundle : Bundle) (keys : List Key) : List Usage :=
  keys.map fun key => ⟨.ofFile file, key, bundle, none⟩

namespace FileOutcome

/-- What comes out of a source file. -/
def ofSource (tree : FileTree) (bundle : Bundle) (path : Path) : FileOutcome :=
  match tree.read path with
  | .error error => .skipped ⟨path.toText, .unreadable error⟩
  | .ok text =>
    match sourceUsages path.toText bundle text with
    | .error error => .failed ⟨path.toText, error⟩
    | .ok found => .usages found

/-- What comes out of a markup file. -/
def ofMarkup (tree : FileTree) (bundle : Bundle) (evaluator : Markup.Evaluator) (path : Path) :
    FileOutcome :=
  match tree.read path with
  | .error error => .skipped ⟨path.toText, .unreadable error⟩
  | .ok text =>
    match Markup.collectKeys evaluator text with
    | .error message => .skipped ⟨path.toText, .unevaluated message⟩
    | .ok keys => .usages (markupUsages path.toText bundle keys)

/-- The warning about a file that does not come out with its usages. -/
def warning? (bundle : Bundle) : FileOutcome → Option LogEvent
  | .usages _ => none
  | .failed failure => some ⟨.warning, failure.message, [("bundle", bundle.name)]⟩
  | .skipped file => some ⟨.warning, s!"skipping {file.message}", [("bundle", bundle.name)]⟩

end FileOutcome

/-- The keys that files use, and what kept files out. -/
structure Collection where
  used : UsedKeys
  /-- The files with malformed call sites, none of whose keys count. -/
  failures : List FileExtractionError
  skipped : List SkippedFile

namespace Collection

/-- Nothing is collected. -/
def empty : Collection := ⟨.empty, [], []⟩

/-- The collection with what comes out of one more file. -/
def add (collection : Collection) : FileOutcome → Collection
  | .usages usages => { collection with used := collection.used.insertAll usages }
  | .failed failure => { collection with failures := collection.failures ++ [failure] }
  | .skipped file => { collection with skipped := collection.skipped ++ [file] }

/-- What comes out of the files of a bundle: of source files first and then, if the bundle is one
that markup refers to, of markup files. -/
def outcomes (tree : FileTree) (bundle : Bundle) (evaluator : Markup.Evaluator)
    (sources markup : List Path) : List FileOutcome :=
  sources.map (FileOutcome.ofSource tree bundle)
    ++ if bundle.readsMarkup then markup.map (FileOutcome.ofMarkup tree bundle evaluator) else []

/-- The collection of all files of a bundle. -/
def ofFiles (tree : FileTree) (bundle : Bundle) (evaluator : Markup.Evaluator)
    (sources markup : List Path) : Collection :=
  (outcomes tree bundle evaluator sources markup).foldl add empty

/-- The event of a complete collection. -/
def event (bundle : Bundle) (collection : Collection) : LogEvent :=
  ⟨.debug, "entry set built",
    [("bundle", bundle.name), ("keys", toString collection.used.size),
      ("failed", toString collection.failures.length),
      ("skipped", toString collection.skipped.length)]⟩

/-- What is logged while all files of a bundle are collected. -/
def log (tree : FileTree) (bundle : Bundle) (evaluator : Markup.Evaluator)
    (sources markup : List Path) : List LogEvent :=
  (outcomes tree bundle evaluator sources markup).filterMap (FileOutcome.warning? bundle)
    ++ [event bundle (ofFiles tree bundle evaluator sources markup)]

end Collection

end LocaleKeys
