/-! # What a caller can do about an error -/

namespace Js5

inductive ErrorKind where
  | notFound
  | corruption
  | format
  | state
  | io
  deriving DecidableEq, Repr

end Js5
