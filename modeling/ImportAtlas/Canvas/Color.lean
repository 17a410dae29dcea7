-- SUMMARY: Colours with transparency, stored with the transparency worked in.
import ImportAtlas.Geometry.Single
import ImportAtlas.Graph.Basic

/-! # Colours

A colour is stored the way it is painted: each channel is already multiplied by how opaque the colour
is. -/

namespace ImportAtlas

structure Color where
  r : UInt8
  g : UInt8
  b : UInt8
  a : UInt8 := 255
  deriving DecidableEq, Repr

namespace Color

def transparent : Color := ⟨0, 0, 0, 0⟩

def black : Color := ⟨0, 0, 0, 255⟩

def gray (level : UInt8) : Color := ⟨level, level, level, 255⟩

/-- A number cut down to a byte: no fraction, and nothing outside the range. -/
def toByte (x : Float32) : UInt8 := x.toUInt8

/-- A channel multiplied by how opaque the colour is, rounded to the nearest byte. -/
def premultiply (c a : UInt8) : UInt8 :=
  toByte (c.toFloat32 * (a.toFloat32 / 255.0) + 0.5)

/-- The colour with these channels before they are multiplied. -/
def ofUnmultiplied (r g b a : UInt8) : Color :=
  if a = 0 then transparent
  else if a = 255 then ⟨r, g, b, 255⟩
  else ⟨premultiply r a, premultiply g a, premultiply b a, a⟩

/-- A darker and more transparent colour. A factor of 1 changes little, one of 0 most. -/
def dim (c : Color) (factor : Float32) : Color :=
  let k := Single.clamp factor 0.0 1.0
  ofUnmultiplied (toByte (c.r.toFloat32 * k)) (toByte (c.g.toFloat32 * k))
    (toByte (c.b.toFloat32 * k)) (toByte (c.a.toFloat32 * (0.45 + k * 0.55)))

end Color

/-! ## How nodes and links look -/

namespace NodeKind

def radius : NodeKind → Float32
  | root => 12.0
  | project => 10.0
  | thirdParty => 8.0
  | group => 16.0

def color : NodeKind → Color
  | root => ⟨255, 0, 0, 255⟩
  | project => ⟨0, 128, 0, 255⟩
  | thirdParty => ⟨0, 0, 255, 255⟩
  | group => ⟨255, 153, 0, 255⟩

end NodeKind

/-- A line of some width. -/
structure Stroke where
  width : Float32
  color : Color

/-- How a link is drawn at a zoom. -/
def linkStroke (grouped : Bool) (zoom : Float32) : Stroke :=
  let root := zoom.sqrt
  if grouped then ⟨Single.clamp (3.0 * root) 1.2 6.0, ⟨255, 102, 0, 255⟩⟩
  else ⟨Single.clamp (2.0 * root) 0.8 4.0, Color.gray 153⟩

end ImportAtlas
