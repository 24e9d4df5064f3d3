import Clumoove.Spec.Store

/-! The names under which a backup keeps what it has read, and where a restore puts them. -/

namespace Clumoove

def normalizeRelativePath (value : Path) : Except String Path :=
  if value = [] ∨ value.contains '\\' then
    .error "backup path must be a non-empty slash-separated relative path"
  else
    let cleaned := GoPath.clean value
    if cleaned = ['.'] ∨ cleaned.head? = some '/' ∨ cleaned = ['.', '.'] ∨
        ['.', '.', '/'] <+: cleaned then
      .error "backup path escapes the snapshot root"
    else .ok cleaned

def resolveWithinRoot (root relative : Path) : Except String Path :=
  let root := GoPath.clean root
  let root := if root = ['.'] ∨ root = [] then ['/'] else root
  if relative = [] then .ok root
  else
    let relative := relative.map fun c => if c = '\\' then '/' else c
    let joined := GoPath.clean (GoPath.join [root, relative])
    if root = ['/'] then
      if joined.head? = some '/' then .ok joined else .error "path escapes storage root"
    else if joined ≠ root ∧ ¬ (root ++ ['/']) <+: joined then .error "path escapes storage root"
    else .ok joined

end Clumoove
