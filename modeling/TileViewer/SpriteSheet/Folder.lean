import TileViewer.SpriteSheet
import TileViewer.Text.Plain

/-!
A sheet from the files of a folder. The file `<id>.png` holds the image of that id; files with
other names are passed over.
-/
namespace TileViewer

/-- A file and its image, if there is one in it. -/
structure SpriteFile where
  name : String
  image? : Option Image

namespace SpriteFile

def suffix : List Char := ['.', 'p', 'n', 'g']

/-- The id that a file name stands for. -/
def id? (name : String) : Option UInt32 :=
  let cs := name.toList
  let stem := cs.take (cs.length - suffix.length)
  if stem ++ suffix = cs then Text.word? (String.ofList stem) else none

end SpriteFile

/-- Why a folder could not be loaded. -/
inductive FolderFault
  | unreadable
  | badImage (name : String)
  deriving DecidableEq, Repr

/-- What is said about a folder at a path. -/
def FolderFault.message (path : String) : FolderFault → String
  | .unreadable => s!"reading tile directory {path}"
  | .badImage name => s!"decoding tile {path}/{name}"

namespace SpriteSheet

def addFile (s : SpriteSheet) (file : SpriteFile) : Except FolderFault SpriteSheet :=
  match SpriteFile.id? file.name with
  | none => .ok s
  | some id =>
    match file.image? with
    | none => .error (.badImage file.name)
    | some img => .ok (s.insert id img)

/-- Loads the files of a folder, in the order in which they are listed. Without a listing the
folder cannot be read. -/
def ofFolder (files : Option (List SpriteFile)) (sprite : UInt32) :
    Except FolderFault SpriteSheet :=
  match files with
  | none => .error .unreadable
  | some files => files.foldlM addFile (ofSprite sprite)

end SpriteSheet

end TileViewer
