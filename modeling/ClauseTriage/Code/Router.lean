import ClauseTriage.Accessor.Resolver
import ClauseTriage.Code.Error
import ClauseTriage.Code.Header
import ClauseTriage.Model.Centroids

/-!
# Routers

Centroids become a class that sends a record to the nearest one.
-/
namespace ClauseTriage.Code

open Accessor Text

/-- The class of a set of centers; a center has one value for each member of the record. -/
structure Router where
  className : String
  record : String
  members : List String
  centers : List (List Float)
  deriving Repr

namespace Router

/-- Assignments to the members of one center. -/
def centerLines (members : List String) (index : Nat) (center : List Float) : List Line :=
  .blank :: ⟨2, "// center " ++ nat index⟩ ::
    (members.zip center).map fun (member, value) =>
      ⟨2, "center[" ++ nat index ++ "]." ++ member ++ " = " ++ Decimal.literal value ++ ";"⟩

def setUpLines (r : Router) : List Line :=
  ⟨1, "void set_up_centers() \x7b"⟩ ::
    (r.centers.zipIdx.flatMap fun (center, index) => centerLines r.members index center) ++
    [⟨1, "\x7d"⟩, .blank]

def squareLines : List Line :=
  [⟨1, "double sq(double x) const \x7b"⟩, ⟨2, "return x*x;"⟩, ⟨1, "\x7d"⟩, .blank]

def distanceLines (r : Router) : List Line :=
  ⟨1, "double norm_dist(const " ++ r.record ++ "& a, const " ++ r.record ++ "& b) const \x7b"⟩ ::
    ⟨2, "double dist = 0;"⟩ ::
    (r.members.map fun member => ⟨2, "dist+=sq(a." ++ member ++ "-b." ++ member ++ ");"⟩) ++
    [⟨2, "return dist;"⟩, ⟨1, "\x7d"⟩, .blank]

def closestLines (r : Router) : List Line :=
  [⟨1, "int which_is_closest(const " ++ r.record ++ "& p) const \x7b"⟩,
   ⟨2, "double closest_dist = std::numeric_limits<double>::max();"⟩,
   ⟨2, "int closest = -1;"⟩,
   ⟨2, "for (int i = 0; i < " ++ nat r.centers.length ++ "; i++) \x7b"⟩,
   ⟨3, "double dist = norm_dist(center[i], p);"⟩,
   ⟨3, "if (dist < closest_dist) \x7b"⟩,
   ⟨4, "closest_dist = dist;"⟩,
   ⟨4, "closest = i;"⟩,
   ⟨3, "\x7d"⟩,
   ⟨2, "\x7d"⟩,
   ⟨2, "return closest;"⟩,
   ⟨1, "\x7d"⟩]

def lines (r : Router) : List Line :=
  [.flush ("class " ++ r.className ++ " \x7b"), .flush "public:",
   ⟨1, r.className ++ "() \x7b"⟩, ⟨2, "set_up_centers();"⟩, ⟨1, "\x7d"⟩, .blank,
   ⟨1, r.record ++ " center[" ++ nat r.centers.length ++ "];"⟩, .blank] ++
    r.setUpLines ++ squareLines ++ r.distanceLines ++ r.closestLines ++ [.flush "\x7d;"]

def header (base : String) (host : Host) (r : Router) : Header :=
  { guard := BaseName.routerGuard base
    includes := [host.shapeInclude]
    systemIncludes := ["cmath", "limits"]
    scope := host.scope
    body := r.lines }

end Router

/-- Centroids as a header. The number of clusters and the number of names must be theirs. -/
def compileRouter? (c : Centroids Float) (names : List String) (clusters : Nat) (base : String)
    (host : Host) : Except CodeError Artifact := do
  CodeError.checkBase base
  if clusters = 0 then throw (.settings .zeroClusters)
  if clusters ≠ c.count then throw (.settings (.clusterCountMismatch clusters c.count))
  if names.length ≠ c.dimension then throw (.shapeDimension names.length c.dimension)
  let r : Router :=
    ⟨BaseName.routerClass base, host.shapeRecord, Resolver.shape.resolveAll names, c.centers⟩
  return ⟨BaseName.routerFile base, [r.className], (r.header base host).text⟩

end ClauseTriage.Code
