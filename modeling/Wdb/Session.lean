import Wdb.Lib.SqlTime

/-! The session of a wci caller (`__WCI_SCHEMA__.getSessionData()`): the namespaces given to
    `wci.begin`, and the time zone setting of the connection. -/

namespace Wdb
open SqlTime

/-- What a session contributes to the meaning of a call. -/
structure Session where
  dataprovidernamespaceid : ℤ
  placenamespaceid : ℤ
  parameternamespaceid : ℤ
  timezone : TimeZone
  deriving DecidableEq

end Wdb
