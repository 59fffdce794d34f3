/-
`parseManifest` (src/service/status.go): `yaml.Unmarshal` of a manifest into `Manifest`, its
metadata and the containers of its pod template.

gopkg.in/yaml.v2 is not in src/. Its parser is modelled on block-style documents: mappings and
sequences laid out by indentation, plain and quoted scalars on one line, comments and blank lines,
`\n` or `\r\n` line ends, and a leading `---`. A document outside that (flow collections, block
scalars, anchors, tags, multi-line scalars, several documents) is `unsupported`: the model says
nothing about it, which is not a YAML error. Decoding follows yaml.v2: keys match the `yaml` tags
exactly, unknown keys are ignored, a null sets the zero value, a node of the wrong kind is a type
error, and a mapping is decoded into the value its field already holds, so a duplicate key of a
struct or a map merges its entries into the earlier ones, where a string or a list is replaced.
-/
import FluxProofs.Manifest.Regexp

namespace Flux.Kubernetes

/-- Why a document did not decode. -/
inductive YamlError where
  /-- Outside the modelled part of YAML. -/
  | unsupported
  /-- Not a YAML document. -/
  | invalid
  /-- yaml.v2's `TypeError`: a node of the wrong kind for its field. -/
  | typeError
  deriving DecidableEq, Repr

/-- A node of the document. A plain `null`, `Null`, `NULL`, `~` or empty scalar is null. -/
inductive Node where
  | null
  | scalar (value : Text)
  | map (entries : List (Text × Node))
  | seq (items : List Node)
  deriving Repr

/-! ## Lines -/

/-- A line that holds something: its indentation and the text after it. -/
structure Line where
  indent : Nat
  body : Text
  deriving DecidableEq, Repr

/-- The lines of a document, without blank lines and comment lines, each without the `\r` of a
`\r\n` line end. A tab in the indentation is not modelled. -/
def lines (t : Text) : Except YamlError (List Line) :=
  (t.splitOn '\n').foldr (fun raw acc => do
    let ls ← acc
    let raw := if raw.getLast? = some '\r' then raw.dropLast else raw
    let body := raw.dropWhile (· = ' ')
    match body with
    | [] | '#' :: _ => pure ls
    | '\t' :: _ => .error .unsupported
    | _ => pure (⟨raw.length - body.length, body⟩ :: ls)) (.ok [])

/-- A sequence item: `-` alone or followed by a space. -/
def isItem (body : Text) : Bool := body = ['-'] || body.take 2 = ['-', ' ']

/-- The text of an item after `- `, and its column relative to the dash. -/
def itemContent (body : Text) : Nat × Text :=
  let after := body.drop 1
  let content := after.dropWhile (· = ' ')
  (1 + after.length - content.length, content)

/-- A mapping entry `key: rest` or `key:`: the key ends at the first `:` followed by a space or
the end of the line. -/
def splitEntry : Text → Option (Text × Text)
  | [] => none
  | [':'] => some ([], [])
  | ':' :: ' ' :: rest => some ([], rest.dropWhile (· = ' '))
  | c :: rest => (splitEntry rest).map fun e => (c :: e.1, e.2)

/-- The text without its trailing spaces. -/
def trimTrailing (t : Text) : Text := (t.reverse.dropWhile (· = ' ')).reverse

/-- Nothing, or only a comment: what follows `key:` or `-` when the value is on the lines below.
The spaces before it are already dropped. -/
def isEmptyRest (t : Text) : Bool := t.isEmpty || t.head? = some '#'

/-- The characters a plain scalar may not start with. -/
def indicators : List Char := ['[', ']', '{', '}', '&', '*', '!', '|', '>', '%', '@', '`', '"', '\'', '#', ',', '?']

/-- Plain scalars yaml.v2 resolves to null. -/
def nullWords : List Text := [[], ['~'], "null".toList, "Null".toList, "NULL".toList]

/-- The text of a plain scalar: up to a comment (a `#` after a space), without trailing spaces. -/
def plainText : Text → Text
  | [] => []
  | ' ' :: '#' :: _ => []
  | c :: rest => c :: plainText rest

/-- The body of a double-quoted scalar up to its closing quote, with the escapes `\"` and `\\`,
and what follows it. -/
def quoted : Text → Except YamlError (Text × Text)
  | [] => .error .invalid
  | '"' :: rest => .ok ([], rest)
  | '\\' :: '"' :: rest => (quoted rest).map fun r => ('"' :: r.1, r.2)
  | '\\' :: '\\' :: rest => (quoted rest).map fun r => ('\\' :: r.1, r.2)
  | '\\' :: _ => .error .unsupported
  | c :: rest => (quoted rest).map fun r => (c :: r.1, r.2)

/-- A scalar written on one line, as a node. -/
def scalarOf (t : Text) : Except YamlError Node :=
  match t with
  | '"' :: rest => do
    let (s, after) ← quoted rest
    match after.dropWhile (· = ' ') with
    | [] => pure (.scalar s)
    | '#' :: _ => if after.head? = some ' ' then pure (.scalar s) else .error .invalid
    | _ => .error .invalid
  | c :: _ =>
    if c ∈ indicators then .error .unsupported
    else
      let s := trimTrailing (plainText t)
      if splitEntry s ≠ none then .error .invalid
      else if s ∈ nullWords then pure .null else pure (.scalar s)
  | [] => pure .null

/-! ## Blocks -/

mutual
/-- The block node on the lines indented more than `ind`, or null when there is none. -/
def blockNode : Nat → Nat → List Line → Except YamlError (Node × List Line)
  | 0, _, _ => .error .unsupported
  | _ + 1, _, [] => .ok (.null, [])
  | n + 1, ind, l :: ls =>
    if l.indent ≤ ind then .ok (.null, l :: ls)
    else if isItem l.body then blockSeq n l.indent (l :: ls) []
    else blockMap n l.indent (l :: ls) []

/-- A block sequence whose dashes are at column `m`, with the items read so far. -/
def blockSeq : Nat → Nat → List Line → List Node → Except YamlError (Node × List Line)
  | 0, _, _, _ => .error .unsupported
  | _ + 1, _, [], acc => .ok (.seq acc, [])
  | n + 1, m, l :: ls, acc =>
    if l.indent = m ∧ isItem l.body then
      let (col, content) := itemContent l.body
      if isEmptyRest content then do
        let (v, rest) ← blockNode n m ls
        blockSeq n m rest (acc ++ [v])
      else if splitEntry content ≠ none then do
        let (v, rest) ← blockMap n (m + col) (⟨m + col, content⟩ :: ls) []
        blockSeq n m rest (acc ++ [v])
      else do
        let v ← scalarOf content
        blockSeq n m ls (acc ++ [v])
    else if l.indent ≤ m then .ok (.seq acc, l :: ls)
    else .error .unsupported

/-- A block mapping whose keys are at column `m`, with the entries read so far. A key is read
without the spaces before its colon; one with nothing after it but a comment takes the block below
it, or a sequence at its own column. -/
def blockMap : Nat → Nat → List Line → List (Text × Node) → Except YamlError (Node × List Line)
  | 0, _, _, _ => .error .unsupported
  | _ + 1, _, [], acc => .ok (.map acc, [])
  | n + 1, m, l :: ls, acc =>
    if l.indent = m then
      match splitEntry l.body with
      | none => .error .invalid
      | some (key, rest) => do
        let key := trimTrailing key
        if key.head?.any (· ∈ indicators) then .error .unsupported
        if isEmptyRest rest then
          let (v, ls') ← match ls with
            | l' :: _ =>
              if l'.indent = m ∧ isItem l'.body then blockSeq n m ls [] else blockNode n m ls
            | [] => pure (.null, [])
          blockMap n m ls' (acc ++ [(key, v)])
        else
          let v ← scalarOf rest
          blockMap n m ls (acc ++ [(key, v)])
    else if l.indent < m then .ok (.map acc, l :: ls)
    else .error .unsupported
end

/-- A line at the left margin that starts with `---` or `...`: a document marker. -/
def isMarker (l : Line) : Bool :=
  l.indent = 0 && (l.body.take 3 = "---".toList || l.body.take 3 = "...".toList)

/-- `yaml.Unmarshal`'s parse of a document: after a `---` line, if the document starts with one,
one block node, every line read. A later marker, which would start another document, is not
modelled. -/
def parseDoc (t : Text) : Except YamlError Node := do
  let ls ← lines t
  let ls := match ls with
    | ⟨0, ['-', '-', '-']⟩ :: rest => rest
    | _ => ls
  if ls.any isMarker then .error .unsupported
  match ls with
  | [] => pure .null
  | l :: _ =>
    let fuel := 2 * ls.length + 2
    let (v, rest) ←
      if isItem l.body then blockSeq fuel l.indent ls [] else blockMap fuel l.indent ls []
    if rest = [] then pure v else .error .invalid

/-! ## Decoding -/

/-- A Go `map[string]string`: keys once each, in the order first set. -/
abbrev StrMap := List (Text × Text)

/-- `a[k] = v` -/
def StrMap.set (a : StrMap) (k v : Text) : StrMap :=
  if a.any (·.1 = k) then a.map fun e => if e.1 = k then (k, v) else e else a ++ [(k, v)]

/-- `delete(a, k)` -/
def StrMap.delete (a : StrMap) (k : Text) : StrMap := a.filter (·.1 ≠ k)

/-- `Container` -/
structure Container where
  name : Text
  image : Text
  deriving DecidableEq, Repr

/-- `Metadata`; `annotations` is `none` for a nil map. -/
structure Metadata where
  name : Text
  annotations : Option StrMap
  deriving DecidableEq, Repr

/-- `Manifest`, with the one field of `Spec.Template.Spec` it declares. -/
structure Manifest where
  metadata : Metadata
  containers : List Container
  deriving DecidableEq, Repr

/-- A scalar into a `string`: its text; null leaves the zero value. -/
def decodeString : Node → Except YamlError Text
  | .null => .ok []
  | .scalar s => .ok s
  | _ => .error .typeError

/-- A node into a struct that holds `cur`: each entry of a mapping, in order, updates the field
its key names (`field`), and unknown keys are skipped; null sets the zero value `zero`. -/
def decodeStruct {σ : Type} (zero : σ) (field : σ → Text → Node → Except YamlError σ) (cur : σ) :
    Node → Except YamlError σ
  | .null => .ok zero
  | .map es => es.foldlM (fun x e => field x e.1 e.2) cur
  | _ => .error .typeError

/-- A node into a `map[string]string` that holds `cur`: a mapping sets its entries in `cur`, or in
a new map when `cur` is nil. -/
def decodeStrMap (cur : Option StrMap) : Node → Except YamlError (Option StrMap)
  | .null => .ok none
  | .map es => some <$> es.foldlM (fun a e => do
      let v ← decodeString e.2
      pure (a.set e.1 v)) (cur.getD [])
  | _ => .error .typeError

/-- A node into a `Container`; each element of a slice starts from the zero value. -/
def decodeContainer : Node → Except YamlError Container :=
  decodeStruct ⟨[], []⟩ (fun c k v =>
    if k = "name".toList then (fun s => { c with name := s }) <$> decodeString v
    else if k = "image".toList then (fun s => { c with image := s }) <$> decodeString v
    else pure c) ⟨[], []⟩

/-- A node into `[]Container`: a new slice, whatever the field held. -/
def decodeContainers : Node → Except YamlError (List Container)
  | .null => .ok []
  | .seq items => items.mapM decodeContainer
  | _ => .error .typeError

/-- A node into a `Metadata` that holds `cur`. -/
def decodeMetadata (cur : Metadata) : Node → Except YamlError Metadata :=
  decodeStruct ⟨[], none⟩ (fun md k v =>
    if k = "name".toList then (fun s => { md with name := s }) <$> decodeString v
    else if k = "annotations".toList then
      (fun a => { md with annotations := a }) <$> decodeStrMap md.annotations v
    else pure md) cur

/-- The nested structs of `Spec.Template.Spec`, down to the containers, the one field each
declares: `key` is the field at this level and `inner` decodes its value into what it holds. -/
def decodeField {σ : Type} (key : String) (inner : σ → Node → Except YamlError σ) (zero : σ) :
    σ → Node → Except YamlError σ :=
  decodeStruct zero fun x k v => if k = key.toList then inner x v else pure x

/-- `var m Manifest` and a node into it. -/
def decodeManifest : Node → Except YamlError Manifest :=
  decodeStruct ⟨⟨[], none⟩, []⟩ (fun m k v =>
    if k = "metadata".toList then
      (fun md => { m with metadata := md }) <$> decodeMetadata m.metadata v
    else if k = "spec".toList then
      (fun cs => { m with containers := cs }) <$>
        decodeField "template" (decodeField "spec" (decodeField "containers"
          (fun _ => decodeContainers) []) []) [] m.containers v
    else pure m) ⟨⟨[], none⟩, []⟩

/-- `parseManifest(def)` -/
def parseManifest (t : Text) : Except YamlError Manifest := parseDoc t >>= decodeManifest

/-- `m.AnnotationsOrNil()`: the annotations, an empty map for a nil one. -/
def Metadata.annotationsOrNil (m : Metadata) : StrMap := m.annotations.getD []

end Flux.Kubernetes
