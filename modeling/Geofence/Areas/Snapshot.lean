import Geofence.Database.Tables
/-!
# The versioned area snapshot
-/

namespace Geofence

/-- A built snapshot: the version label read first, and the rows its index was built from. -/
structure Snapshot where
  version : Nat
  areas : AreasTable

namespace Snapshot

def index (snapshot : Snapshot) : AreaSpatialIndex := .ofRows snapshot.areas.rows

def findCoveringAreaIds (lib : SpatialLibrary) (snapshot : Snapshot) (lng lat : ℚ) : List AreaId :=
  snapshot.index.findCoveringAreaIds lib lng lat

theorem findCoveringAreaIds_nodup (lib : SpatialLibrary) (snapshot : Snapshot) (lng lat : ℚ) :
    (snapshot.findCoveringAreaIds lib lng lat).Nodup :=
  AreaSpatialIndex.findCoveringAreaIds_nodup lib _ lng lat snapshot.areas.primaryKey

end Snapshot

end Geofence
