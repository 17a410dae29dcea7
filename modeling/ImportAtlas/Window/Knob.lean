-- SUMMARY: The knobs with which the simulation is tuned.
import ImportAtlas.Session.Engine

/-! # Knobs

Each knob shows one number of the tuning and keeps it in a range. The charge of the nodes is shown with
its sign turned, as a force that repels. -/

namespace ImportAtlas

inductive Knob where
  | linkLength | linkForce | repelForce | centerForce
  deriving DecidableEq, Repr

namespace Knob

def all : List Knob := [linkLength, linkForce, repelForce, centerForce]

def label : Knob → String
  | linkLength => "Link length"
  | linkForce => "Link force"
  | repelForce => "Repel force"
  | centerForce => "Center force"

/-- The least number that a knob shows. -/
def low : Knob → Float32
  | linkLength => 10.0
  | _ => 0.0

/-- The greatest number that a knob shows. -/
def high : Knob → Float32
  | linkLength => 400.0
  | linkForce => 1.0
  | repelForce => 5000.0
  | centerForce => 0.2

/-- A number moved into a range; what is not a number counts as beyond its end. -/
def within (lo hi x : Float32) : Float32 := if x ≤ lo then lo else if x < hi then x else hi

/-- The tuning in which every number is in the range of its knob. -/
def bound (c : SimConfig) : SimConfig where
  linkDistance := within linkLength.low linkLength.high c.linkDistance
  linkStrength := within linkForce.low linkForce.high c.linkStrength
  repulsion := within (-repelForce.high) (-repelForce.low) c.repulsion
  centerStrength := within centerForce.low centerForce.high c.centerStrength

/-- Turn one knob so that it shows a number. The others come into their range with it. -/
def turn (k : Knob) (x : Float32) (c : SimConfig) : SimConfig :=
  let c := bound c
  let x := within k.low k.high x
  match k with
  | linkLength => { c with linkDistance := x }
  | linkForce => { c with linkStrength := x }
  | repelForce => { c with repulsion := -x }
  | centerForce => { c with centerStrength := x }

end Knob

end ImportAtlas
