import Bindery.Header.C

/-!
The C header every other one includes: the text sink, the views, and the slices and options of
primitives.
-/

set_option autoImplicit false

namespace Bindery.CRuntime

def file : Text := "weld_runtime.h"

def sink : CDecl :=
  .support ["WeldWriteable"]
    ["/// Caller-allocated growable text sink.",
      "///",
      "/// The native side appends with `weld_writeable_write`. The host owns the",
      "/// buffer: `grow` must make room for at least the requested length and",
      "/// update `buf` and `cap`; `flush` publishes `len` bytes to the host.",
      "typedef struct WeldWriteable \x7b",
      "    void* context;",
      "    char* buf;",
      "    size_t len;",
      "    size_t cap;",
      "    bool grow_failed;",
      "    void (*flush)(struct WeldWriteable*);",
      "    bool (*grow)(struct WeldWriteable*, size_t);",
      "\x7d WeldWriteable;"]

def sinkWrite : CDecl :=
  .support ["weld_writeable_write"] [
    "/// Appends `len` bytes. Returns false (and stops writing) once a grow",
    "/// request has failed.",
    "static inline bool weld_writeable_write(WeldWriteable* w, const char* data, size_t len) \x7b",
    "    if (len == 0) \x7b",
    "        return !w->grow_failed;",
    "    \x7d",
    "    if (w->grow_failed) \x7b",
    "        return false;",
    "    \x7d",
    "    if (w->len + len > w->cap) \x7b",
    "        if (!w->grow(w, w->len + len) || w->len + len > w->cap) \x7b",
    "            w->grow_failed = true;",
    "            return false;",
    "        \x7d",
    "    \x7d",
    "    memcpy(w->buf + w->len, data, len);",
    "    w->len += len;",
    "    return true;",
    "\x7d"]

def sinkFlush : CDecl :=
  .support ["weld_writeable_flush"]
    ["static inline void weld_writeable_flush(WeldWriteable* w) \x7b",
      "    w->flush(w);",
      "\x7d"]

/-- A pointer to elements and their number. -/
def view (docs name pointer : Text) : CDecl :=
  .record docs name [⟨[], pointer, "data"⟩, ⟨[], "size_t", "len"⟩]

def textViews : List CDecl :=
  [view "Borrowed UTF-8 text. `data` is not NUL-terminated." "WeldStringView" "const char*",
    view "Borrowed UTF-16 text, `len` code units." "WeldString16View" "const uint16_t*",
    view "Borrowed array of UTF-8 strings." "WeldStringsView" "const WeldStringView*"]

def slices (p : Primitive) : List CDecl :=
  [view [] (p.cSlice false) ("const " ++ p.cName ++ "*"),
    view [] (p.cSlice true) (p.cName ++ "*")]

def header : CHeader where
  file := file
  includes := [[.system "stdbool.h", .system "stddef.h", .system "stdint.h", .system "string.h"]]
  scope := .linkage
  decls :=
    [sink, sinkWrite, sinkFlush] ++ textViews ++ Primitive.all.flatMap slices ++
      Primitive.all.map fun p => .option p.cOption p.cName

end Bindery.CRuntime
