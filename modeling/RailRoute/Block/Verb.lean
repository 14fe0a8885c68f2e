/-!
# Names of track commands
-/

namespace RailRoute

/-- What a command of the track does. -/
inductive TrackVerb where
  | rail | railStart | railEnd | railType
  | accuracy | pitch | curve | turn | adhesion | height | ground
  | freeObject | wall | dike | wallEnd | dikeEnd | pole | poleEnd
  | background | fog
  | indexSection | valueSection | customSignal | postSignal | relay
  | station | stop | requestStop | limit
  | beacon | transponder | announce | doppler
  | imageMarker | textMarker | buffer | pointOfInterest
  deriving DecidableEq, Repr

/-- The names of track commands; some have two. -/
def TrackVerb.names : List (String × TrackVerb) :=
  [("rail", .rail), ("railstart", .railStart), ("railend", .railEnd), ("railtype", .railType),
    ("accuracy", .accuracy), ("pitch", .pitch), ("curve", .curve), ("turn", .turn),
    ("adhesion", .adhesion), ("height", .height), ("ground", .ground),
    ("freeobj", .freeObject), ("wall", .wall), ("dike", .dike), ("wallend", .wallEnd),
    ("dikeend", .dikeEnd), ("pole", .pole), ("poleend", .poleEnd),
    ("back", .background), ("background", .background), ("fog", .fog),
    ("section", .indexSection), ("sections", .valueSection), ("sigf", .customSignal),
    ("signal", .postSignal), ("sig", .postSignal), ("relay", .relay),
    ("sta", .station), ("stop", .stop), ("requeststop", .requestStop), ("limit", .limit),
    ("beacon", .beacon), ("transponder", .transponder), ("tr", .transponder),
    ("announce", .announce), ("doppler", .doppler),
    ("marker", .imageMarker), ("textmarker", .textMarker), ("buffer", .buffer),
    ("pointofinterest", .pointOfInterest), ("poi", .pointOfInterest)]

/-- What a command of the given name does. -/
def TrackVerb.ofName? (name : String) : Option TrackVerb := names.lookup name

end RailRoute
