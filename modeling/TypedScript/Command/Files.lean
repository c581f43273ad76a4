import TypedScript.Command.Path

/-!
# Files

What a command needs of a file system (`Files`), and a directory in memory that offers it
(`Directory`).  A path is walked component by component from the directory; each component but the
last has to be a directory.  Above the directory there are only directories, and nothing is known to
be in them.
-/

namespace TypedScript

/-! ## faults -/

inductive FileFault where
  /-- a fault that the system has a text and a number for -/
  | system (text : String) (code : Nat)
  /-- the bytes of a file are no text -/
  | notText
  | other (text : String)
  deriving DecidableEq, Repr, Inhabited

namespace FileFault

def notFound : FileFault := .system "No such file or directory" 2

def notDirectory : FileFault := .system "Not a directory" 20

def isDirectory : FileFault := .system "Is a directory" 21

def message : FileFault → String
  | system text code => text ++ " (os error " ++ toString code ++ ")"
  | notText => "stream did not contain valid UTF-8"
  | other text => text

end FileFault

/-- reading and writing files, as effects of `m` -/
structure Files (m : Type → Type) where
  read : String → m (Except FileFault ByteArray)
  write : String → String → m (Except FileFault Unit)

/-! ## a directory in memory -/

/-- the components that lead to a place; all steps upwards come first -/
abbrev Place := List String

/-- the place to which a component leads -/
def Place.step (p : Place) (component : String) : Place :=
  if !namesPlace component then p
  else if component = ".." then
    match p.getLast? with
    | none => [".."]
    | some ".." => p ++ [".."]
    | some _ => p.dropLast
  else p ++ [component]

inductive Node where
  | file (contents : ByteArray)
  | directory

/-- the files of a directory; the directories in it are those that hold files -/
structure Directory where
  files : List (Place × ByteArray)

namespace Directory

def ofFiles (files : List (String × ByteArray)) : Directory :=
  ⟨files.map fun (path, contents) => ((pathComponents path).foldl Place.step [], contents)⟩

/-- what is at a place -/
def node? (d : Directory) (p : Place) : Option Node :=
  match d.files.lookup p with
  | some contents => some (.file contents)
  | none =>
    if p.all (· == "..") || d.files.any (fun f => p.isPrefixOf f.1) then some .directory else none

/-- the place to which components lead; what is there is not looked at -/
def walk (d : Directory) (p : Place) : List String → Except FileFault Place
  | [] => .ok p
  | c :: cs =>
    match d.node? p with
    | some .directory => d.walk (p.step c) cs
    | some (.file _) => .error .notDirectory
    | none => .error .notFound

def read (d : Directory) (path : String) : Except FileFault ByteArray := do
  if path.isEmpty then throw .notFound
  match d.node? (← d.walk [] (pathComponents path)) with
  | some (.file contents) => return contents
  | some .directory => throw .isDirectory
  | none => throw .notFound

/-- puts a file at a place -/
def put (d : Directory) (p : Place) (contents : ByteArray) : Directory :=
  ⟨d.files.filter (fun f => f.1 != p) ++ [(p, contents)]⟩

/-- a path that ends with a slash can only be a directory -/
def write (d : Directory) (path text : String) : Except FileFault Directory := do
  if path.isEmpty then throw .notFound
  let components := pathComponents path
  let names := (components.reverse.dropWhile (· == "")).reverse
  let p ← d.walk [] names
  if names.length < components.length then throw .isDirectory
  match d.node? p with
  | some .directory => throw .isDirectory
  | _ => return d.put p text.toUTF8

/-- reading and writing in a directory that is a state -/
def access : Files (StateM Directory) where
  read path := do return (← get).read path
  write path text := fun d =>
    match d.write path text with
    | .ok d' => (.ok (), d')
    | .error e => (.error e, d)

/-- the files that are new or have changed since `before`, by their paths -/
def changes (before d : Directory) : List (String × ByteArray) :=
  (d.files.filter fun (p, contents) =>
    p.head? != some ".." && (before.files.lookup p).map (·.data) != some contents.data).map
      fun (p, contents) => ("/".intercalate p, contents)

end Directory

end TypedScript
