-- SUMMARY: A fixed place in the square from -1 to 1 for every id.
import ImportAtlas.Geometry.Vec
import ImportAtlas.Hash.Sip

/-! # Scatter

Nodes that appear have no place yet. Each gets one that depends on its id alone, so the same graph
always starts from the same layout. -/

namespace ImportAtlas

/-- A 32-bit word as a number from -1 to 1. -/
def spread (w : UInt64) : Float32 := (w.toFloat / 4294967295.0).toFloat32 * 2.0 - 1.0

/-- The place of an id in the square from -1 to 1. -/
def scatter (id : String) : Point :=
  let h := Sip.hashText id
  ⟨spread (h &&& 0xffffffff), spread (h >>> 32)⟩

end ImportAtlas
