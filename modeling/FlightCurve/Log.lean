/-!
Records of what was done, for those who watch: a level and a message.
-/

namespace FlightCurve

inductive LogLevel
  | debug
  | info
  | warning
  deriving DecidableEq, Repr

def LogLevel.name : LogLevel → String
  | .debug => "DEBUG"
  | .info => "INFO"
  | .warning => "WARNING"

structure LogRecord where
  level : LogLevel
  message : String
  deriving DecidableEq, Repr

end FlightCurve
