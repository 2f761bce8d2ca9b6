import Amend.Digest.Sha256

/-!
# Signatures of discovery queries

A query is three lists of texts: roots, suffixes and exclude patterns.  Its signature is the
digest of its `encoding`, in which every list begins with its name and a separator and every
item ends with a NUL byte.  Where an item itself holds a list's name and the separator, two
queries may have the same encoding.
-/

namespace Amend.Discovery

/-- What discovery is asked for. -/
structure Query where
  roots : List String
  suffixes : List String
  excludes : List String
deriving DecidableEq, Repr

namespace Query

/-- A named list of items: its name, a separator, and each item with a NUL byte after it. -/
def encodeList (name : String) (items : List String) : List UInt8 :=
  name.toUTF8.toList ++ [0x1e] ++ items.flatMap fun item => item.toUTF8.toList ++ [0]

/-- The bytes that stand for a query. -/
def encoding (q : Query) : List UInt8 :=
  encodeList "roots" q.roots ++ encodeList "suffixes" q.suffixes ++ encodeList "excludes" q.excludes

/-- The digest of a query. -/
def signature (q : Query) : String := Sha256.hex q.encoding

end Query

end Amend.Discovery
