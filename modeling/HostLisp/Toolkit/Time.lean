import HostLisp.Host
import HostLisp.Time.DurationText
import HostLisp.Time.Timestamp
import HostLisp.Toolkit

/-!
# The time toolkit

`time.now` is the current instant, computed whenever it is looked up; `time.from-unix` makes an
instant of seconds since 1970, and `time.parse-time` and `time.parse-duration` read texts.
-/

namespace HostLisp.Toolkit.Time

/-- The key of the deferred computation behind `time.now`. -/
def nowKey : String := "time.now"

/-- Seconds since 1970 as an instant. -/
def fromUnix : Operation where
  parameters := [.int]
  perform := fun (seconds, ()) =>
    match Instant.ofNanos? (seconds.toInt * 1_000_000_000) with
    | some t => .ok (.time t)
    | none => .error ("time out of range: " ++ String.ofList (Decimal.signed seconds.toInt))

/-- A timestamp as an instant. -/
def parseTime : Operation where
  parameters := [.string]
  perform := fun (text, ()) => (Timestamp.read text).map .time

/-- The text of a duration as a duration. -/
def parseDuration : Operation where
  parameters := [.string]
  perform := fun (text, ()) =>
    match Duration.read text with
    | .ok d => .ok (.duration d)
    | .error e => .error e.message

/-- The toolkit; `identity` belongs to the computation of the current instant. -/
def kit (identity : Nat) : Toolkit :=
  (Toolkit.named "time")
    |>.withValue "now" (.deferred ⟨identity, nowKey, .nil⟩)
    |>.withNative "from-unix" (.operation "time.from-unix")
    |>.withNative "parse-time" (.operation "time.parse-time")
    |>.withNative "parse-duration" (.operation "time.parse-duration")

/-- A host that also knows the keys of the toolkit. -/
def extend (host : Host) : Host where
  operation key :=
    if key = "time.from-unix" then fromUnix
    else if key = "time.parse-time" then parseTime
    else if key = "time.parse-duration" then parseDuration
    else host.operation key
  raw := host.raw
  deferred key identity datum eval :=
    if key = nowKey then do
      let w ← Run.world
      return .time w.now
    else host.deferred key identity datum eval

end HostLisp.Toolkit.Time
