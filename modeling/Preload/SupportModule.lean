/-!
# The support module

The module that entry files load first unless a build brings its own. It turns on source maps in
stack traces and does nothing where the package for that is not installed.
-/

namespace Preload

/-- The text of the support module. -/
def supportModule : String :=
  "/* Registers source-map-support so stack traces point at original sources. */\n" ++
    "(function () \x7b\n" ++
    "  'use strict';\n" ++
    "  var support;\n" ++
    "  try \x7b\n" ++
    "    support = require('source-map-support');\n" ++
    "  \x7d catch (err) \x7b\n" ++
    "    if (err && err.code === 'MODULE_NOT_FOUND') \x7b\n" ++
    "      return;\n" ++
    "    \x7d\n" ++
    "    throw err;\n" ++
    "  \x7d\n" ++
    "  support.install(\x7b\n" ++
    "    environment: 'node',\n" ++
    "    handleUncaughtExceptions: false,\n" ++
    "    hookRequire: false\n" ++
    "  \x7d);\n" ++
    "\x7d)();\n"

end Preload
