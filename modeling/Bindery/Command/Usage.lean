import Bindery.Header.Basic

/-!
The help text and the version line.
-/

set_option autoImplicit false

namespace Bindery.Command

def usageText : Text :=
  "weld binding generator " ++ version ++ "\n\n" ++
    "Usage: weld <command> [options]\n\n" ++
    "Commands:\n" ++
    "  generate  Generate C ABI headers and host bindings\n" ++
    "  check     Run the generator without writing files\n" ++
    "  symbols   List the exported native symbols\n" ++
    "\nOptions:\n" ++
    "  --ir <file>                  IR document (JSON)\n" ++
    "  --backend <c|cpp>            Host backend (default: cpp)\n" ++
    "  --out <dir>                  Output directory (default: bindings)\n" ++
    "  --feature <name>             Activate a feature (repeatable)\n" ++
    "  --namespace <ns>             C++ namespace (cpp backend)\n" ++
    "  --jobs <n>, -j <n>           Worker threads\n" ++
    "  --pointer-width <32|64>      Target pointer width\n" ++
    "  --config <file>              Read settings from weld.toml\n" ++
    "  --no-manifest                Do not write weld-manifest.json\n" ++
    "  --diagnostic-format=<fmt>    text or json\n" ++
    "  --help, -h                   Show this help\n" ++
    "  --version, -V                Show version\n" ++
    "\nLogging:\n" ++
    "  -v, -vv, -vvv                Info, debug, trace\n" ++
    "  -q, --quiet                  Errors only\n" ++
    "  --log-level=<level>          trace|debug|info|warn|error|fatal|off\n" ++
    "  --log-filter=<spec>          e.g. emit=debug,*=warn\n" ++
    "  --log-file=<path>            Also write logs to a file\n" ++
    "  --log-format=<text|json>     Log line format\n"

def versionText : Text := "weld " ++ version ++ "\n"

def usageHint : Text := "Run 'weld --help' for usage.\n"

end Bindery.Command
