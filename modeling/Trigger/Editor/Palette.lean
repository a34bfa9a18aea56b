import Trigger.Config.Level

/-! The object palette of the editor: built for a new map from the resource
directory, or merged from a loaded map and the directory.

A listing is the list of paths `LoadDirectoryFiles` returns, none when the
directory does not exist.
-/

set_option autoImplicit false

namespace Trigger.Editor
open Foundation Config

def dot : UInt8 := 46
def slash : UInt8 := 47
def backslash : UInt8 := 92

def mapDir : Bytes := text "../resources/map"
def heroFile : Bytes := text "male_hero_template.png"

def emptyObject : ObjectConfig := ⟨0, ⟨text "empty", by decide⟩, emptyString, emptyString⟩

def playerObject : ObjectConfig :=
  ⟨1, ⟨text "player", by decide⟩, ⟨text "../resources/map/male_hero_template.png", by decide⟩,
    ⟨text "player", by decide⟩⟩

def doorObject : ObjectConfig :=
  ⟨2, ⟨text "door", by decide⟩, ⟨text "../resources/map/IndustrialTile_81.png", by decide⟩,
    ⟨text "door", by decide⟩⟩

def endObject : ObjectConfig :=
  ⟨3, ⟨text "end", by decide⟩, ⟨text "../resources/map/IndustrialTile_45.png", by decide⟩, emptyString⟩

def isPng (path : Bytes) : Bool := strrchr dot path = some (text ".png")

def fileName (path : Bytes) : Bytes :=
  match strrchr slash path with
  | some suffix => suffix.tail
  | none =>
    match strrchr backslash path with
    | some suffix => suffix.tail
    | none => path

/-- The file names the loop over the directory reaches past its two guards. -/
def pngNames (listing : Option (List Bytes)) : List Bytes :=
  match listing with
  | some paths => ((paths.filter isPng).map fileName).filter fun fname => fname ≠ heroFile
  | none => []

def resourcePath (fname : Bytes) : Bytes := mapDir ++ slash :: fname

/-- The file name without its extension, after `strncpy` into `char name[256]`. -/
def pngName (fname : Bytes) : CharArray 256 :=
  -- The copy is cut at its last dot, which may be missing once it is truncated.
  let name := truncated 256 room256 fname
  ⟨cutAtLast dot name.val, Nat.lt_of_le_of_lt (length_cutAtLast_le _ _) name.property⟩

def appendPng (objects : List ObjectConfig) (fname : Bytes) : List ObjectConfig :=
  objects ++ [⟨objects.length, pngName fname, truncated 256 room256 (resourcePath fname), emptyString⟩]

def buildObjectPalette (listing : Option (List Bytes)) : List ObjectConfig :=
  (pngNames listing).foldl appendPng [emptyObject, playerObject, doorObject, endObject]

/-- `snprintf` into `char corrected[512]`, then `strcpy` into the texture field. -/
def correctTexture (texture : CharArray 256) : Except Fault (CharArray 256) :=
  if text "resources/" <+: texture.val then
    strcpy (truncated 512 room512 (text "../" ++ texture.val)).val
  else .ok texture

def copyLoaded (src : ObjectConfig) : Except Fault ObjectConfig :=
  if src.id = 0 then .ok emptyObject
  else if src.id = 1 then .ok playerObject
  else (correctTexture src.texture).map fun texture => { src with texture }

def trackMaxId (maxId : Int) (src : ObjectConfig) : Int :=
  -- The fixed ids `continue` before the maximum is taken.
  if src.id = 0 ∨ src.id = 1 then maxId else if src.id > maxId then src.id else maxId

def intMax : Int := 2147483647

structure Merging where
  temp : List ObjectConfig
  maxId : Int

/-- `++max_id` and the `strcpy` of `char fullPath[512]` into the texture field. -/
def mergePng (merging : Merging) (fname : Bytes) : Except Fault Merging :=
  let fullPath := (truncated 512 room512 (resourcePath fname)).val
  -- A file counts as present by its path alone.
  if merging.temp.any fun object => object.texture.val = fullPath then .ok merging
  else if merging.maxId < intMax then do
    let texture ← strcpy fullPath
    return ⟨merging.temp ++ [⟨merging.maxId + 1, pngName fname, texture, emptyString⟩], merging.maxId + 1⟩
  else .error .signedOverflow

def withFixed (oldObjects temp : List ObjectConfig) : List ObjectConfig :=
  temp ++ (if oldObjects.any fun src => src.id = 0 then [] else [emptyObject]) ++
    (if oldObjects.any fun src => src.id = 1 then [] else [playerObject])

def mergeObjectPalette (listing : Option (List Bytes)) (oldObjects : List ObjectConfig) :
    Except Fault (List ObjectConfig) := do
  let loaded ← oldObjects.mapM copyLoaded
  -- The objects that are appended for missing fixed ids do not count for the maximum either.
  let merging := ⟨withFixed oldObjects loaded, oldObjects.foldl trackMaxId 0⟩
  let merged ← (pngNames listing).foldlM mergePng merging
  return merged.temp

end Trigger.Editor
