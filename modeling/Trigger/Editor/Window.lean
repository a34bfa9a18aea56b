import Trigger.Editor.Session

/-! The window of the editor: in a frame the view moves, the mouse paints or picks, the keys
act, and the map and a page of the palette are drawn.

Numbers are exact, and the casts of mouse positions to `int` have no bound, so the model
goes on where a position beyond the ints has no meaning in the source. Of what is drawn
it keeps the cells, the items and the highlight, each with its rectangle and its texture;
colours and texts are left out.
-/

set_option autoImplicit false

namespace Trigger.Editor
open Foundation Config Engine

def screenWidth : Int := 1280
def screenHeight : Int := 800
def paletteWidth : Int := 200
def gridAreaWidth : Int := screenWidth - paletteWidth

def moveSpeed : Rat := 200

def cellSize : Rat :=
  let size := fminf ((gridAreaWidth : Rat) / 20) ((screenHeight : Rat) / 20)
  if size < 4 then 4 else size

/-- The keys and the mouse in a frame, and the time the last frame took. -/
structure EditorInput where
  right : Bool
  left : Bool
  down : Bool
  up : Bool
  frameTime : Rat
  mouse : Vector2 Rat
  click : Bool
  a : Bool
  d : Bool
  s : Bool
  control : Bool
  g : Bool

/-- A cell of the map on the screen: a texture or else a dark square, and the grid as its border. -/
structure DrawnCell where
  row : Nat
  col : Nat
  id : Int
  texture : Option Texture
  dest : Rectangle Rat
  bordered : Bool

structure DrawnItem where
  object : ObjectConfig
  texture : Option Texture
  box : Rectangle Rat
  selected : Bool

structure Picture where
  cells : List DrawnCell
  highlight : Option (Rectangle Rat)
  items : List DrawnItem

structure EditorWindow where
  textures : TextureManager
  session : EditorSession
  cameraOffset : Vector2 Rat
  showGrid : Bool
  picture : Picture

/-- One axis of the view: the two keys, and then the limits. -/
def moveAxis (offset : Rat) (forward back : Bool) (frameTime : Rat) (content area : Rat) : Rat :=
  let offset := if forward then offset + moveSpeed * frameTime else offset
  let offset := if back then offset - moveSpeed * frameTime else offset
  let maxOff := if content - area < 0 then 0 else content - area
  let offset := if offset < 0 then 0 else offset
  if maxOff < offset then maxOff else offset

def moveView (layout : MapLayout) (offset : Vector2 Rat) (input : EditorInput) : Vector2 Rat where
  x := moveAxis offset.x input.right input.left input.frameTime (layout.cols * cellSize) gridAreaWidth
  y := moveAxis offset.y input.down input.up input.frameTime (layout.rows * cellSize) screenHeight

/-- The row and the column of the map under the mouse. -/
def cellUnder (offset mouse : Vector2 Rat) : Int × Int :=
  (truncate ((mouse.y + offset.y) / cellSize), truncate ((mouse.x + offset.x) / cellSize))

def mouseActions (offset : Vector2 Rat) (input : EditorInput) : List EditorAction :=
  if input.click then
    if (gridAreaWidth : Rat) ≤ input.mouse.x then [.clickPalette (truncate ((input.mouse.y - 40) / 40))]
    else [.clickMap (cellUnder offset input.mouse).1 (cellUnder offset input.mouse).2]
  else []

def keyActions (input : EditorInput) : List EditorAction :=
  (if input.a then [.previousPage] else []) ++ (if input.d then [.nextPage] else []) ++
    if input.s ∧ input.control then [.save] else []

def between (first last : Int) : List Int := (List.range (last - first).toNat).map fun (k : Nat) => first + k

def drawnRange (offset : Rat) (area : Int) (count : Nat) : Int × Int :=
  let start := truncate (offset / cellSize)
  let last := start + truncate (area / cellSize) + 2
  (if start < 0 then 0 else start, if (count : Int) < last then count else last)

def cellRect (offset : Vector2 Rat) (row col : Int) : Rectangle Rat :=
  ⟨col * cellSize - offset.x, row * cellSize - offset.y, cellSize, cellSize⟩

def loadedTexture (textures : TextureManager) (id : Int) : Option Texture :=
  match textureIndex id with
  | .ok slot => if textures.loaded slot then some (textures.texture slot) else none
  | .error _ => none

def drawCell (textures : TextureManager) (layout : MapLayout) (offset : Vector2 Rat) (showGrid : Bool) (row col : Int) :
    Except Fault DrawnCell :=
  match layout.at? row col with
  | some id => .ok ⟨row.toNat, col.toNat, id, loadedTexture textures id, cellRect offset row col, showGrid⟩
  | none => .error .outOfBounds

def drawCells (textures : TextureManager) (layout : MapLayout) (offset : Vector2 Rat) (showGrid : Bool) :
    Except Fault (List DrawnCell) := do
  let cols := drawnRange offset.x gridAreaWidth layout.cols
  let rows := drawnRange offset.y screenHeight layout.rows
  let drawn ← (between rows.1 rows.2).mapM fun row =>
    (between cols.1 cols.2).mapM fun col => drawCell textures layout offset showGrid row col
  return drawn.flatten

def drawHighlight (layout : MapLayout) (offset mouse : Vector2 Rat) : Option (Rectangle Rat) :=
  let (row, col) := cellUnder offset mouse
  if mouse.x < gridAreaWidth ∧ 0 ≤ row ∧ row < layout.rows ∧ 0 ≤ col ∧ col < layout.cols then
    some (cellRect offset row col)
  else none

def drawItem (textures : TextureManager) (session : EditorSession) (startIdx i : Int) : Except Fault DrawnItem :=
  if i < 0 then .error .outOfBounds
  else
    match session.config.objects[i.toNat]? with
    | some object => .ok ⟨object, loadedTexture textures object.id,
        ⟨gridAreaWidth + 5, 40 + (i - startIdx) * 40, paletteWidth - 10, 35⟩, object.id = session.currentTile⟩
    | none => .error .outOfBounds

def drawItems (textures : TextureManager) (session : EditorSession) : Except Fault (List DrawnItem) :=
  let startIdx := session.palettePage * itemsPerPage
  let endIdx := startIdx + itemsPerPage
  let endIdx := if session.config.countObjects < endIdx then (session.config.countObjects : Int) else endIdx
  (between startIdx endIdx).mapM (drawItem textures session startIdx)

/-- One turn of the loop of `main`. -/
def editorFrame (window : EditorWindow) (input : EditorInput) : Except Fault EditorWindow := do
  let offset := moveView window.session.config.layout window.cameraOffset input
  let session ← run editorStep window.session (mouseActions offset input ++ keyActions input)
  let showGrid := if input.g then !window.showGrid else window.showGrid
  let cells ← drawCells window.textures session.config.layout offset showGrid
  let items ← drawItems window.textures session
  let highlight := drawHighlight session.config.layout offset input.mouse
  return ⟨window.textures, session, offset, showGrid, ⟨cells, highlight, items⟩⟩

def openWindow (textures : TextureManager) (session : EditorSession) : EditorWindow :=
  ⟨textures, session, ⟨0, 0⟩, true, ⟨[], none, []⟩⟩

end Trigger.Editor
